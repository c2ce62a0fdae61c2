import ObjectGraph.Proofs.FailedWrite

/-!
# Facades

There are several ways to read and to write by a path text: with the plain operations, from a
handle, with a callback and with an editor, which may have a hook. Any sequence of such calls has
the answers and the heap that the plain operations have. Whoever listens is told about each write
that happened, once and in order, when the heap is as this write left it.
-/

namespace ObjectGraph

variable {Rule Memory : Type}

/-- A read or a write by a path text, in one of the ways that there are. -/
inductive Call (Memory : Type) where
  | get (root : Value) (text : String)
  | getShared (handle : Handle) (text : String)
  | getEdited (editor : Editor Memory) (root : Value) (text : String)
  | set (root : Value) (text : String) (value : Value)
  | setShared (handle : Handle) (text : String) (value : Value)
  | setThen (onChange : Hook Memory) (root : Value) (text : String) (value : Value)
  | setEdited (editor : Editor Memory) (root : Value) (text : String) (value : Value)

inductive Demand where
  | get (root : Value) (text : String)
  | set (root : Value) (text : String) (value : Value)

/-- What a call answers: a value if it reads, and no value if it writes. -/
abbrev Answer :=
  Except AccessError (Option Value)

/-- What a demand comes to with the plain operations: the answer, the change if a write happened,
and the heap right after it. -/
structure Outcome where
  answer : Answer
  change? : Option Change
  after : Heap

def Outcome.lastHeap (first : Heap) (outcomes : List Outcome) : Heap :=
  (outcomes.getLast?.map after).getD first

theorem Outcome.lastHeap_cons (first : Heap) (outcome : Outcome) (outcomes : List Outcome) :
    lastHeap first (outcome :: outcomes) = lastHeap outcome.after outcomes := by
  cases outcomes with
  | nil => rfl
  | cons next later => rw [lastHeap, lastHeap, List.getLast?_cons_cons, List.getLast?_cons]; rfl

/-- A change that a listener is told about, and the heap at this moment. -/
structure Report (Memory : Type) where
  listener : Hook Memory
  change : Change
  heap : Heap

def Report.deliver (memory : Memory) (report : Report Memory) : Memory :=
  (report.listener report.change report.heap memory).2

/-- A listener that leaves the heap alone. The contract of a hook: it is notified of a write that
succeeded, for the tracking of changes, and takes no part in the write. -/
def Hook.Quiet (hook : Hook Memory) : Prop :=
  ∀ change heap memory, (hook change heap memory).1 = heap

/-! ## Demands -/

namespace Demand

section Meet

variable [Accessors Rule]

def meet (catalog : Catalog Rule) (heap : Heap) : Demand → Outcome
  | get root text =>
      match root.get catalog text heap with
      | .ok value after => ⟨.ok (some value), none, after⟩
      | .error error after => ⟨.error error, none, after⟩
  | set root text value =>
      match root.set catalog text value heap with
      | .ok change after => ⟨.ok none, some change, after⟩
      | .error error after => ⟨.error error, none, after⟩

def outcomes (catalog : Catalog Rule) : Heap → List Demand → List Outcome
  | _, [] => []
  | heap, demand :: demands =>
      demand.meet catalog heap :: outcomes catalog (demand.meet catalog heap).after demands

/-- The demand is for a write, and this write happens: its text is parsed, the path is located from
the root, and the value is written through the location. -/
inductive Writes (catalog : Catalog Rule) (before : Heap) : Demand → Change → Heap → Prop
  | set {root value : Value} {text : String} {path : Path} {location : Location}
      {reached after : Heap} (parsed : Path.parse text = .ok path)
      (located : root.locate catalog path before = .ok location reached)
      (written : location.write catalog value reached = .ok () after) :
      Writes catalog before (.set root text value) ⟨root, path⟩ after

theorem meet_of_writes
    {catalog : Catalog Rule} {heap after : Heap} {demand : Demand} {change : Change}
    (writes : demand.Writes catalog heap change after) :
    demand.meet catalog heap = ⟨.ok none, some change, after⟩ := by
  cases writes with
  | set parsed located written =>
      have done := Value.set_eq_ok_iff.mpr ⟨_, _, _, parsed, located, written, rfl⟩
      simp only [meet, done]

/-- A demand comes to a change exactly when it is for a write that happens, and then the heap is as
this write leaves it. -/
theorem change?_meet_eq_some_iff
    {catalog : Catalog Rule} {heap : Heap} {demand : Demand} {change : Change} :
    (demand.meet catalog heap).change? = some change ↔
      demand.Writes catalog heap change (demand.meet catalog heap).after := by
  constructor
  · intro happened
    cases demand with
    | get root text =>
        simp only [meet] at happened
        cases done : root.get catalog text heap <;> simp [done] at happened
    | set root text value =>
        cases done : root.set catalog text value heap with
        | error error after => simp [meet, done] at happened
        | ok written after =>
            simp only [meet, done, Option.some.injEq] at happened ⊢
            subst happened
            obtain ⟨path, location, reached, parsed, located, finished, rfl⟩ :=
              Value.set_eq_ok_iff.mp done
            exact .set parsed located finished
  · intro writes
    rw [meet_of_writes writes]

/-- A demand comes to a change exactly when it is for a write and its answer is no failure. -/
theorem isSome_change?_meet
    {catalog : Catalog Rule} {heap : Heap} {demand : Demand} :
    (demand.meet catalog heap).change?.isSome ↔ (demand.meet catalog heap).answer = .ok none := by
  cases demand with
  | get root text =>
      simp only [meet]
      cases root.get catalog text heap <;> simp
  | set root text value =>
      simp only [meet]
      cases root.set catalog text value heap <;> simp

/-- Each demand is met with the heap that the demands before it leave. -/
theorem getElem?_outcomes
    (catalog : Catalog Rule) (heap : Heap) (demands : List Demand) (index : Nat) :
    (outcomes catalog heap demands)[index]? =
      demands[index]?.map
        (meet catalog (Outcome.lastHeap heap ((outcomes catalog heap demands).take index))) := by
  induction demands generalizing heap index with
  | nil => rfl
  | cons demand demands inductionHypothesis =>
      cases index with
      | zero => rfl
      | succ index =>
          rw [outcomes, List.getElem?_cons_succ, List.getElem?_cons_succ, List.take_succ_cons,
            Outcome.lastHeap_cons]
          exact inductionHypothesis _ index

end Meet

end Demand

/-! ## Calls -/

namespace Call

def demand : Call Memory → Demand
  | get root text => .get root text
  | getShared handle text => .get (.shared handle) text
  | getEdited _ root text => .get root text
  | set root text value => .set root text value
  | setShared handle text value => .set (.shared handle) text value
  | setThen _ root text value => .set root text value
  | setEdited _ root text value => .set root text value

def listener? : Call Memory → Option (Hook Memory)
  | setThen onChange _ _ _ => some onChange
  | setEdited editor _ _ _ => editor.hook?
  | _ => none

def Quiet (call : Call Memory) : Prop :=
  ∀ hook, call.listener? = some hook → hook.Quiet

/-- What the listener of a call is told when the call comes to this outcome. -/
def report? (call : Call Memory) (outcome : Outcome) : Option (Report Memory) := do
  let listener ← call.listener?
  let change ← outcome.change?
  return ⟨listener, change, outcome.after⟩

def reports (calls : List (Call Memory)) (outcomes : List Outcome) : List (Report Memory) :=
  (calls.zip outcomes).filterMap fun (call, outcome) => call.report? outcome

/-- The result of an operation that nobody listens to. -/
def unheard {Result : Type} (memory : Memory) (toAnswer : Result → Option Value) :
    EStateM.Result AccessError Heap Result → Answer × Heap × Memory
  | .ok result after => (.ok (toAnswer result), after, memory)
  | .error error after => (.error error, after, memory)

section Run

variable [Accessors Rule]

def run (catalog : Catalog Rule) (heap : Heap) (memory : Memory) :
    Call Memory → Answer × Heap × Memory
  | get root text => unheard memory some (root.get catalog text heap)
  | getShared handle text => unheard memory some (handle.get catalog text heap)
  | getEdited editor root text => unheard memory some (editor.get catalog root text heap)
  | set root text value => unheard memory (fun _ => none) (root.set catalog text value heap)
  | setShared handle text value =>
      unheard memory (fun _ => none) (handle.set catalog text value heap)
  | setThen onChange root text value =>
      let (answer, after) := root.setThen catalog onChange text value heap memory
      (answer.map fun _ => none, after)
  | setEdited editor root text value =>
      let (answer, after) := editor.set catalog root text value heap memory
      (answer.map fun _ => none, after)

def runAll (catalog : Catalog Rule) :
    Heap → Memory → List (Call Memory) → List Answer × Heap × Memory
  | heap, memory, [] => ([], heap, memory)
  | heap, memory, call :: calls =>
      let (answer, after, remembered) := call.run catalog heap memory
      let (answers, final) := runAll catalog after remembered calls
      (answer :: answers, final)

/-- Tells whoever listens, if there is a change to tell. -/
def tell (listener? : Option (Hook Memory)) (outcome : Outcome) (memory : Memory) : Heap × Memory :=
  match listener?, outcome.change? with
  | some listener, some change => listener change outcome.after memory
  | _, _ => (outcome.after, memory)

/-- A call does what the plain operation does, and then it tells its listener. -/
theorem run_eq_tell
    (catalog : Catalog Rule) (heap : Heap) (memory : Memory) (call : Call Memory) :
    call.run catalog heap memory =
      let outcome := call.demand.meet catalog heap
      (outcome.answer, tell call.listener? outcome memory) := by
  have reads : ∀ (root : Value) (text : String),
      unheard memory some (root.get catalog text heap) =
        let outcome := (Demand.get root text).meet catalog heap
        (outcome.answer, tell none outcome memory) := by
    intro root text
    simp only [Demand.meet]
    cases root.get catalog text heap <;> rfl
  have writes : ∀ (root : Value) (text : String) (value : Value),
      unheard memory (fun _ => none) (root.set catalog text value heap) =
        let outcome := (Demand.set root text value).meet catalog heap
        (outcome.answer, tell none outcome memory) := by
    intro root text value
    simp only [Demand.meet]
    cases root.set catalog text value heap <;> rfl
  have told : ∀ (hook : Hook Memory) (root : Value) (text : String) (value : Value),
      (let (answer, after) := root.setThen catalog hook text value heap memory
       ((answer.map fun _ => none, after) : Answer × Heap × Memory)) =
        let outcome := (Demand.set root text value).meet catalog heap
        (outcome.answer, tell (some hook) outcome memory) := by
    intro hook root text value
    simp only [Value.setThen, Demand.meet]
    cases root.set catalog text value heap <;> rfl
  cases call with
  | get root text => exact reads root text
  | getShared handle text => exact reads (.shared handle) text
  | getEdited editor root text => exact reads root text
  | set root text value => exact writes root text value
  | setShared handle text value => exact writes (.shared handle) text value
  | setThen onChange root text value => exact told onChange root text value
  | setEdited editor root text value =>
      obtain ⟨hook?⟩ := editor
      cases hook? with
      | some hook => exact told hook root text value
      | none =>
          rw [run, Editor.set, demand, listener?, ← writes root text value]
          cases root.set catalog text value heap <;> rfl

/-! ## Sequences of calls -/

/-- Calls that ask for the same, with the same listeners, do the same, whatever the listeners do. -/
theorem runAll_congr
    {first second : List (Call Memory)} (catalog : Catalog Rule) (heap : Heap) (memory : Memory)
    (sameDemands : first.map demand = second.map demand)
    (sameListeners : first.map listener? = second.map listener?) :
    runAll catalog heap memory first = runAll catalog heap memory second := by
  induction first generalizing second heap memory with
  | nil =>
      obtain rfl : second = [] := List.map_eq_nil_iff.mp sameDemands.symm
      rfl
  | cons call calls inductionHypothesis =>
      cases second with
      | nil => cases sameDemands
      | cons other others =>
          obtain ⟨sameDemand, restDemands⟩ := List.cons.inj sameDemands
          obtain ⟨sameListener, restListeners⟩ := List.cons.inj sameListeners
          have sameRun : call.run catalog heap memory = other.run catalog heap memory := by
            rw [run_eq_tell, run_eq_tell, sameDemand, sameListener]
          rw [runAll, runAll, sameRun]
          simp only [inductionHypothesis _ _ restDemands restListeners]

/-- A quiet listener gets its report, and the heap stays as the write left it. -/
theorem tell_of_quiet
    {call : Call Memory} (quiet : call.Quiet) (outcome : Outcome) (memory : Memory) :
    tell call.listener? outcome memory =
      (outcome.after, (call.report? outcome).toList.foldl Report.deliver memory) := by
  obtain ⟨answer, change?, after⟩ := outcome
  cases listens : call.listener? with
  | none =>
      rw [report?, listens]
      rfl
  | some hook =>
      rw [report?, listens]
      cases change? with
      | none => rfl
      | some change => exact Prod.ext (quiet hook listens change after memory) rfl

theorem reports_cons
    (call : Call Memory) (calls : List (Call Memory)) (outcome : Outcome)
    (outcomes : List Outcome) :
    reports (call :: calls) (outcome :: outcomes) =
      (call.report? outcome).toList ++ reports calls outcomes := by
  simp only [reports, List.zip_cons_cons, List.filterMap_cons]
  cases call.report? outcome <;> rfl

theorem runAll_of_quiet
    {calls : List (Call Memory)} (catalog : Catalog Rule) (heap : Heap) (memory : Memory)
    (quiet : ∀ call ∈ calls, call.Quiet) :
    let outcomes := Demand.outcomes catalog heap (calls.map demand)
    runAll catalog heap memory calls =
      (outcomes.map Outcome.answer, Outcome.lastHeap heap outcomes,
        (reports calls outcomes).foldl Report.deliver memory) := by
  induction calls generalizing heap memory with
  | nil => rfl
  | cons call calls inductionHypothesis =>
      have restQuiet : ∀ later ∈ calls, later.Quiet :=
        fun later present => quiet later (List.mem_cons_of_mem call present)
      simp only [List.map_cons, Demand.outcomes, runAll, run_eq_tell,
        tell_of_quiet (quiet call List.mem_cons_self), inductionHypothesis _ _ restQuiet,
        reports_cons, List.foldl_append, Outcome.lastHeap_cons]

/-- Calls do what the plain operations do, and listeners are told exactly about the writes that
happen, each at its time. -/
structure Faithful (catalog : Catalog Rule) (heap : Heap) (memory : Memory)
    (calls : List (Call Memory)) (outcomes : List Outcome) : Prop where
  answers_eq : (runAll catalog heap memory calls).1 = outcomes.map Outcome.answer
  heap_eq : (runAll catalog heap memory calls).2.1 = Outcome.lastHeap heap outcomes
  memory_eq : (runAll catalog heap memory calls).2.2 =
    (reports calls outcomes).foldl Report.deliver memory
  /-- Each call starts with the heap that the calls before it leave. It comes to a change exactly if
  it is a write without failure. The change has the root of the call and the path that its text
  stands for, and it is told with the heap that this write leaves. -/
  changes : ∀ (index : Nat) (call : Call Memory), calls[index]? = some call →
    ∃ outcome, outcomes[index]? = some outcome ∧
      (outcome.change?.isSome ↔ outcome.answer = .ok none) ∧
      ∀ change, outcome.change? = some change ↔
        call.demand.Writes catalog (Outcome.lastHeap heap (outcomes.take index)) change
          outcome.after

/-- All ways to ask come to the same: the outcomes are those of the plain operations, for the same
demands. -/
theorem faithful_of_quiet
    {calls : List (Call Memory)} (catalog : Catalog Rule) (heap : Heap) (memory : Memory)
    (quiet : ∀ call ∈ calls, call.Quiet) :
    Faithful catalog heap memory calls (Demand.outcomes catalog heap (calls.map demand)) := by
  have done := runAll_of_quiet catalog heap memory quiet
  refine ⟨by rw [done], by rw [done], by rw [done], fun index call asked => ?_⟩
  have met := Demand.getElem?_outcomes catalog heap (calls.map demand) index
  rw [List.getElem?_map, asked] at met
  exact ⟨_, met, Demand.isSome_change?_meet, fun change => Demand.change?_meet_eq_some_iff⟩

end Run

def labelling : Hook (List String) :=
  fun change heap labels => (heap, labels ++ [change.label])

/-- Five ways to ask something of the ring. -/
def mixed : List (Call (List String)) :=
  [.setEdited ⟨some labelling⟩ Ring.root "next.pair.x" (.int 5),
    .setThen labelling Ring.root "pair.x" (.text "one"),
    .getShared Ring.handle "pair.x",
    .setShared Ring.handle "pair.y" (.int 6),
    .setThen labelling Ring.root "next.next" .null]

/-- The second call fails and nobody listens to the fourth one. -/
theorem faithful_mixed :
    (∀ call ∈ mixed, call.Quiet) ∧
      Faithful Ring.catalog Ring.heap [] mixed
        (Demand.outcomes Ring.catalog Ring.heap (mixed.map demand)) ∧
      runAll Ring.catalog Ring.heap [] mixed =
        ([.ok none, .error (.typeMismatch .int "string"), .ok (some (.int 5)), .ok none, .ok none],
          ⟨#[.composite ⟨⟨"main", "Node"⟩, [.struct ⟨"main", "Pair"⟩ [.int 5, .int 6], .null]⟩]⟩,
          ["Set x", "Set next"]) := by
  have quiet : ∀ call ∈ mixed, call.Quiet := by
    have labellingQuiet : labelling.Quiet := fun change heap labels => rfl
    intro call present hook listens
    simp only [mixed, List.mem_cons, List.not_mem_nil, or_false] at present
    rcases present with rfl | rfl | rfl | rfl | rfl <;> cases listens <;> exact labellingQuiet
  exact ⟨quiet, faithful_of_quiet Ring.catalog Ring.heap [] quiet, by with_unfolding_all rfl⟩

end Call

end ObjectGraph
