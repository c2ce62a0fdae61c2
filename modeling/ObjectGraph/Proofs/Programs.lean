import ObjectGraph.Proofs.Session
import ObjectGraph.Proofs.Visibility

/-!
# Programs and visibility

A program works on a session step by step, and each step may depend on what came back from the steps
before. Two programs that differ only in the visibility of declared members have the same replies:
the same values, locations, trees, errors and log records. They leave the same graph, and catalogs
that differ only in recorded visibilities. This takes computed members that do not ask for the
visibility of members; one that does tells the two programs apart.
-/

namespace ObjectGraph

variable {Rule Memory : Type}

/-! ## Programs -/

inductive Command (Rule Memory : Type) where
  | act (action : Action Rule Memory)
  | unfold (value : Value)

/-- What comes back from a step. The layout of a registered type comes without the visibilities that
it records. -/
inductive Reply (Rule : Type) where
  | registered (outcome : Except RegistrationError (Layout Rule)) (log : List LogRecord)
  | made (answer : Except RegistrationError Value)
  | listed (answer : Except Value Value)
  | pushed (accepted : Bool)
  | read (answer : Except AccessError Value)
  | located (answer : Except AccessError Location)
  | written (answer : Except AccessError Unit)
  | unfolded (answer : Except DepthExceeded Tree)

/-- Steps, each chosen after the replies to those before it. -/
inductive Program (Rule Memory : Type) where
  | done
  | step (command : Command Rule Memory) (next : Reply Rule → Program Rule Memory)

section Run

variable [Accessors Rule]

namespace Session

def reply (session : Session Rule Memory) : Command Rule Memory → Reply Rule
  | .act (.register label declaration) =>
      let registration := session.catalog.register label declaration
      .registered (registration.outcome.map Layout.exposed) registration.log
  | .act (.instantiate type) =>
      .made ((session.catalog.instantiate? type session.heap).map Prod.fst)
  | .act (.makeList element items) =>
      .listed ((session.heap.newList session.catalog element items).map Prod.fst)
  | .act (.push handle value) => .pushed (session.heap.push session.catalog handle value).isSome
  | .act (.read root text) => .read (Access.answer (root.get session.catalog text session.heap))
  | .act (.locate root path) =>
      .located (Access.answer (root.locate session.catalog path session.heap))
  | .act (.write request) =>
      .written (request.run session.catalog session.heap session.memory).1
  | .unfold value => .unfolded (value.tree session.catalog session.heap)

def after (session : Session Rule Memory) : Command Rule Memory → Session Rule Memory
  | .act action => session.perform action
  | .unfold _ => session

end Session

def Program.run : Program Rule Memory → Session Rule Memory →
    List (Reply Rule) × Session Rule Memory
  | .done, session => ([], session)
  | .step command next, session =>
      let (replies, final) := (next (session.reply command)).run (session.after command)
      (session.reply command :: replies, final)

end Run

/-! ## Differences in visibility -/

/-- The commands are the same, or they declare types that differ in the visibility of members at
most. -/
inductive Command.SameButVisibility : Command Rule Memory → Command Rule Memory → Prop
  | register (label : String) {declaration other : TypeDecl Rule}
      (same : declaration.SameButVisibility other) :
      SameButVisibility (.act (.register label declaration)) (.act (.register label other))
  | refl (command : Command Rule Memory) : SameButVisibility command command

/-- The programs differ in the visibility of declared members at most. -/
inductive Program.SameButVisibility : Program Rule Memory → Program Rule Memory → Prop
  | done : SameButVisibility .done .done
  | step {command other : Command Rule Memory} {next otherNext : Reply Rule → Program Rule Memory}
      (same : command.SameButVisibility other)
      (further : ∀ reply, (next reply).SameButVisibility (otherNext reply)) :
      SameButVisibility (.step command next) (.step other otherNext)

theorem Program.SameButVisibility.refl (program : Program Rule Memory) :
    program.SameButVisibility program := by
  induction program with
  | done => exact .done
  | step command next inductionHypothesis => exact .step (.refl command) inductionHypothesis

/-- The sessions differ in recorded visibilities at most. -/
structure Session.SameButVisibility (first second : Session Rule Memory) : Prop where
  catalog : first.catalog.SameButVisibility second.catalog
  heap : first.heap = second.heap
  memory : first.memory = second.memory
  kept : first.kept = second.kept
  answers : first.answers = second.answers

theorem Session.SameButVisibility.refl (session : Session Rule Memory) :
    session.SameButVisibility session :=
  ⟨.refl session.catalog, rfl, rfl, rfl, rfl⟩

/-! ## Two runs -/

section Runs

variable [Accessors Rule]

theorem WriteRequest.run_eq
    {first second : Catalog Rule} (blind : Accessors.Blind Rule)
    (same : first.SameButVisibility second) (request : WriteRequest Memory) (heap : Heap)
    (memory : Memory) :
    request.run first heap memory = request.run second heap memory := by
  cases request <;>
    simp only [run, Handle.set, Value.setThen, Editor.set, same.set_eq blind, same.write_eq blind]

namespace Session.SameButVisibility

variable {session other : Session Rule Memory}

theorem reply_eq
    (blind : Accessors.Blind Rule) (same : session.SameButVisibility other)
    (command : Command Rule Memory) :
    session.reply command = other.reply command := by
  obtain ⟨first, heap, memory, kept, answers⟩ := session
  obtain ⟨second, _, _, _, _⟩ := other
  obtain ⟨sameCatalog, rfl, rfl, rfl, rfl⟩ := same
  cases command with
  | unfold value => simp only [reply, sameCatalog.tree_eq]
  | act action =>
      cases action with
      | register label declaration =>
          obtain ⟨sameOutcome, sameLog, _⟩ := sameCatalog.register (.refl declaration) label
          simp only [reply, sameOutcome, sameLog]
      | instantiate type => simp only [reply, sameCatalog.instantiate?_eq]
      | makeList element items => simp only [reply, sameCatalog.newList_eq]
      | push handle value => simp only [reply, sameCatalog.push_eq]
      | read root text => simp only [reply, sameCatalog.get_eq blind]
      | locate root path => simp only [reply, sameCatalog.locate_eq blind]
      | write request => simp only [reply, WriteRequest.run_eq blind sameCatalog]

theorem after
    (blind : Accessors.Blind Rule) (same : session.SameButVisibility other)
    (command : Command Rule Memory) :
    (session.after command).SameButVisibility (other.after command) := by
  obtain ⟨first, heap, memory, kept, answers⟩ := session
  obtain ⟨second, _, _, _, _⟩ := other
  obtain ⟨sameCatalog, rfl, rfl, rfl, rfl⟩ := same
  cases command with
  | unfold value => exact ⟨sameCatalog, rfl, rfl, rfl, rfl⟩
  | act action =>
      simp only [Session.after]
      cases action with
      | register label declaration =>
          have registered := (sameCatalog.register (.refl declaration) label).catalog
          exact ⟨registered, rfl, rfl, rfl, rfl⟩
      | instantiate type =>
          simp only [perform, sameCatalog.instantiate?_eq]
          cases second.instantiate? type heap <;> exact ⟨sameCatalog, rfl, rfl, rfl, rfl⟩
      | makeList element items =>
          simp only [perform, sameCatalog.newList_eq]
          cases heap.newList second element items <;> exact ⟨sameCatalog, rfl, rfl, rfl, rfl⟩
      | push handle value =>
          simp only [perform, sameCatalog.push_eq]
          cases heap.push second handle value <;> exact ⟨sameCatalog, rfl, rfl, rfl, rfl⟩
      | read root text =>
          simp only [perform, sameCatalog.get_eq blind]
          cases root.get second text heap <;> exact ⟨sameCatalog, rfl, rfl, rfl, rfl⟩
      | locate root path =>
          simp only [perform, sameCatalog.locate_eq blind]
          cases root.locate second path heap <;> exact ⟨sameCatalog, rfl, rfl, rfl, rfl⟩
      | write request =>
          simp only [perform, WriteRequest.run_eq blind sameCatalog]
          exact ⟨sameCatalog, rfl, rfl, rfl, rfl⟩

/-- One step of two programs has the same reply, and it leaves both sessions the same. -/
theorem step
    {command otherCommand : Command Rule Memory} (blind : Accessors.Blind Rule)
    (same : session.SameButVisibility other)
    (sameCommand : command.SameButVisibility otherCommand) :
    session.reply command = other.reply otherCommand ∧
      (session.after command).SameButVisibility (other.after otherCommand) := by
  cases sameCommand with
  | refl command => exact ⟨same.reply_eq blind command, same.after blind command⟩
  | @register label declaration otherDeclaration sameDeclaration =>
      obtain ⟨sameOutcome, sameLog, registered⟩ := same.catalog.register sameDeclaration label
      constructor
      · simp only [reply, sameOutcome, sameLog]
      · exact { same with catalog := registered }

end Session.SameButVisibility

/-- Programs that differ only in the visibility of declared members have the same replies, step by
step, and they leave sessions that differ only in recorded visibilities. -/
theorem Program.run_sameButVisibility
    {program other : Program Rule Memory} {before otherBefore : Session Rule Memory}
    (blind : Accessors.Blind Rule) (samePrograms : program.SameButVisibility other)
    (sameBefore : before.SameButVisibility otherBefore) :
    (program.run before).1 = (other.run otherBefore).1 ∧
      (program.run before).2.SameButVisibility (other.run otherBefore).2 := by
  induction samePrograms generalizing before otherBefore with
  | done => exact ⟨rfl, sameBefore⟩
  | @step command otherCommand next otherNext sameCommand further inductionHypothesis =>
      obtain ⟨sameReply, sameAfter⟩ := sameBefore.step blind sameCommand
      obtain ⟨sameReplies, sameEnd⟩ := inductionHypothesis (before.reply command) sameAfter
      rw [run, run, ← sameReply]
      exact ⟨congrArg (List.cons _) sameReplies, sameEnd⟩

end Runs

/-! ## Pairs and nodes that hide their members -/

namespace Ring

def hidden (declaration : TypeDecl PropertyRule) : TypeDecl PropertyRule :=
  { declaration with
    members := declaration.members.map fun member => { member with visibility := .owner } }

/-- Registers pairs and nodes, and fills the pair of a new node through the computed member for both
numbers. -/
def filling (pair node : TypeDecl PropertyRule) : Program PropertyRule Unit :=
  .step (.act (.register "main" pair)) fun _ =>
    .step (.act (.register "main" node)) fun _ =>
      .step (.act (.instantiate ⟨"main", "Node"⟩)) fun
        | .made (.ok made) =>
            .step (.act (.write (.path made "pair.both" (.int 7)))) fun _ =>
              .step (.act (.read made "pair.y")) fun _ =>
                .step (.unfold made) fun _ => .done
        | _ => .done

end Ring

/-- Members that only their owner may see are found, written and listed like those for everyone. -/
theorem Program.run_sameButVisibility_hidden :
    let shown := Ring.filling Ring.pair Ring.node
    let hidden := Ring.filling (Ring.hidden Ring.pair) (Ring.hidden Ring.node)
    let before : Session PropertyRule Unit := .start ()
    shown.SameButVisibility hidden ∧ (shown.run before).1 = (hidden.run before).1 ∧
      (shown.run before).2.SameButVisibility (hidden.run before).2 ∧
      (hidden.run before).1.drop 3 =
        [.written (.ok ()), .read (.ok (.int 7)),
          .unfolded (.ok
            (.map [("pair", .map [("x", .int 7), ("y", .int 7)]), ("next", .unit)]))] := by
  intro shown hidden before
  have same : shown.SameButVisibility hidden :=
    .step (.register "main" rfl) fun _ => .step (.register "main" rfl) fun _ => .refl _
  obtain ⟨sameReplies, sameEnd⟩ := run_sameButVisibility PropertyRule.blind same (.refl before)
  refine ⟨same, sameReplies, sameEnd, ?_⟩
  rw [← sameReplies]
  let made (x y : Int64) : Heap :=
    ⟨#[.composite ⟨⟨"main", "Node"⟩, [.struct ⟨"main", "Pair"⟩ [.int x, .int y], .null]⟩]⟩
  have registered : (before.after (.act (.register "main" Ring.pair))).after
      (.act (.register "main" Ring.node)) = Ring.registered := rfl
  have instantiated : Ring.registered.reply (.act (.instantiate ⟨"main", "Node"⟩)) =
      .made (.ok Ring.root) := rfl
  have holding : Ring.registered.after (.act (.instantiate ⟨"main", "Node"⟩)) =
      ⟨Ring.catalog, made 0 0, (), [], [Ring.root]⟩ := rfl
  have written : Ring.root.set Ring.catalog "pair.both" (.int 7) (made 0 0) =
      .ok ⟨Ring.root, ⟨[.member "pair", .member "both"], by simp⟩⟩ (made 7 7) := by
    have parsed : Path.parse "pair.both" =
        .ok ⟨[.member "pair", .member "both"], by simp⟩ := by
      decide +kernel
    rw [Value.set_apply, Path.ofText_of_parse parsed]
    rfl
  have read : Ring.root.get Ring.catalog "pair.y" (made 7 7) = .ok (.int 7) (made 7 7) := by
    have parsed : Path.parse "pair.y" = .ok ⟨[.member "pair", .member "y"], by simp⟩ := by
      decide +kernel
    rw [Value.get_of_parse parsed]
    rfl
  simp only [shown, Ring.filling, run, List.drop_succ_cons, List.drop_zero, registered,
    instantiated, holding]
  simp only [Session.reply, Session.after, Session.perform, WriteRequest.run, WriteRequest.settle,
    written, read, Access.answer]
  rfl

/-! ## A computed member that asks for visibility -/

/-- A computed member that answers whether everyone may use another member of its owner. -/
structure PublicityRule where
  name : String

instance : Accessors PublicityRule where
  read rule catalog owner heap :=
    let open? := ((catalog.layout owner.type).member? rule.name).any fun placed =>
      placed.member.visibility == .everyone
    (.bool open?, heap)
  write? _ := none

namespace PublicityRule

def sheet (visibility : Visibility) : TypeDecl PublicityRule where
  name := "Sheet"
  semantics := .value
  base? := none
  members :=
    [⟨"note", .int, .field, visibility, none⟩,
      ⟨"isPublic", .bool, .property ⟨"note"⟩, .everyone, none⟩]

/-- Registers sheets and reads from a new sheet whether its note is for everyone. -/
def asking (visibility : Visibility) : Program PublicityRule Unit :=
  .step (.act (.register "main" (sheet visibility))) fun _ =>
    .step (.act (.instantiate ⟨"main", "Sheet"⟩)) fun
      | .made (.ok made) => .step (.act (.read made "isPublic")) fun _ => .done
      | _ => .done

end PublicityRule

/-- A computed member that asks for the visibility of a member tells two programs apart that differ
in nothing else. -/
theorem Program.run_ne_of_askedVisibility :
    let shown := PublicityRule.asking .everyone
    let hidden := PublicityRule.asking .owner
    let before : Session PublicityRule Unit := .start ()
    shown.SameButVisibility hidden ∧ (shown.run before).1 ≠ (hidden.run before).1 := by
  intro shown hidden before
  have same : shown.SameButVisibility hidden := .step (.register "main" rfl) fun _ => .refl _
  have answersYes : (shown.run before).1.drop 2 = [.read (.ok (.bool true))] := by
    with_unfolding_all rfl
  have answersNo : (hidden.run before).1.drop 2 = [.read (.ok (.bool false))] := by
    with_unfolding_all rfl
  refine ⟨same, fun sameReplies => ?_⟩
  rw [sameReplies, answersNo] at answersYes
  simp at answersYes

end ObjectGraph
