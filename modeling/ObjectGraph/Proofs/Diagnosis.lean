import Mathlib.Data.List.Chain
import Mathlib.Data.String.Basic
import ObjectGraph.Proofs.Access
import ObjectGraph.Proofs.Grammar

/-!
# Malformed path texts

A text that is not a path is refused at the leftmost place where reading cannot go on. In front of
that place the text consists of segments with separators behind them, whose steps are yielded first.
What stands there decides the fault, and where several could be named, the one that is found first:
an index has to be closed, then it has to be a number, then a small one, then it must not start the
path, and last a separator has to follow it.
-/

namespace ObjectGraph

namespace Path

/-! ## Faults -/

/-- The fault in the text from byte `start` on, where no segment with an end or a separator behind
it can be read. -/
inductive Diagnosis (start : Nat) : String → Malformation → Prop where
  | emptyPath (first : start = 0) : Diagnosis start "" ⟨0, .emptyPath⟩
  | missingSegment (later : start ≠ 0) : Diagnosis start "" ⟨start, .emptySegment⟩
  | unclosedIndex {body : String} (unclosed : ']' ∉ body.toList) :
      Diagnosis start ("Array.data[" ++ body) ⟨start + 11, .unclosedIndex⟩
  | invalidIndex {digits after : String} (unmarked : ']' ∉ digits.toList)
      (invalid : ¬ IsNumeral digits) :
      Diagnosis start ("Array.data[" ++ digits ++ "]" ++ after) ⟨start + 11, .invalidIndex⟩
  | indexOverflow {digits after : String} (isNumeral : IsNumeral digits)
      (large : 2 ^ 64 ≤ numeral digits) :
      Diagnosis start ("Array.data[" ++ digits ++ "]" ++ after) ⟨start + 11, .indexOverflow⟩
  | leadingIndex {segment after : String} {index : Nat} (spells : Spells segment (.element index))
      (first : start = 0) :
      Diagnosis start (segment ++ after) ⟨0, .leadingIndex⟩
  | trailingCharacters {segment after : String} {index : Nat} {char : Char}
      (spells : Spells segment (.element index)) (later : start ≠ 0)
      (behind : after.toList.head? = some char) (unseparated : char ≠ '.') :
      Diagnosis start (segment ++ after) ⟨start + segment.utf8ByteSize, .trailingCharacters⟩
  | emptySegment {after : String} : Diagnosis start ("." ++ after) ⟨start, .emptySegment⟩

theorem utf8Length_toList (text : String) :
    utf8Length text.toList = text.utf8ByteSize := by
  rw [← @String.ofList_toList text, String.utf8ByteSize_ofList, String.toList_ofList]
  generalize text.toList = chars
  induction chars with
  | nil => rfl
  | cons char chars inductionHypothesis =>
      rw [utf8Length, inductionHypothesis, String.utf8Len_cons, Nat.add_comm]

theorem toList_opened (body : String) :
    ("Array.data[" ++ body).toList = Step.elementOpening ++ body.toList := by
  simp [Step.elementOpening]

theorem toList_closed (digits after : String) :
    ("Array.data[" ++ digits ++ "]" ++ after).toList =
      Step.elementOpening ++ (digits.toList ++ Step.elementClosing :: after.toList) := by
  rw [String.toList_append, toList_position]
  simp

/-- A text that is not closed, or not by a number that may stand there, is no element step. -/
theorem diagnosis_of_elementSegment
    {start : Nat} {rest : String} {body : List Char} {malformation : Malformation}
    (opened : rest.toList = Step.elementOpening ++ body)
    (read : elementSegment start body = .error malformation) :
    Diagnosis start rest malformation := by
  rcases unclosed_or_closed body with unclosed | ⟨digits, after, rfl, unmarked⟩
  · rw [elementSegment_unclosed unclosed] at read
    cases read
    obtain rfl : rest = "Array.data[" ++ String.ofList body := by
      apply String.toList_inj.mp
      rw [opened, toList_opened, String.toList_ofList]
    refine .unclosedIndex ?_
    rwa [String.toList_ofList]
  · obtain rfl : rest = "Array.data[" ++ digits ++ "]" ++ String.ofList after := by
      apply String.toList_inj.mp
      rw [opened, toList_closed, String.toList_ofList]
    rw [elementSegment_closed unmarked] at read
    split_ifs at read with isNumeral large first
    · cases read
      exact .indexOverflow isNumeral large
    · cases read
      exact .leadingIndex (.position isNumeral.1 isNumeral.2 (Nat.lt_of_not_le large)) first
    · cases read
      exact .invalidIndex unmarked isNumeral

theorem diagnosis_of_memberSegment
    {start : Nat} {rest : String} {malformation : Malformation} (nonempty : rest.toList ≠ [])
    (read : memberSegment start rest.toList = .error malformation) :
    Diagnosis start rest malformation := by
  simp only [memberSegment] at read
  split_ifs at read with unnamed
  cases read
  obtain ⟨char, after, chars⟩ := List.exists_cons_of_ne_nil nonempty
  have separated : char = '.' := by
    simpa [chars, List.takeWhile_cons, Step.separator] using unnamed
  obtain rfl : rest = "." ++ String.ofList after := by
    apply String.toList_inj.mp
    rw [chars, separated]
    simp
  exact .emptySegment

/-- Where no segment is read, the fault is that of the text there. -/
theorem diagnosis_of_segment
    {start : Nat} {rest : String} {malformation : Malformation}
    (read : segment start rest.toList = .error malformation) :
    Diagnosis start rest malformation := by
  unfold segment at read
  split at read
  · next ended =>
      obtain rfl : rest = "" := by simpa using ended
      cases read
      split_ifs with first
      · subst first
        exact .emptyPath rfl
      · exact .missingSegment first
  · next nonempty =>
      split at read
      · next body opened =>
          exact diagnosis_of_elementSegment (dropOpening?_eq_some_iff.mp opened) read
      · next unopened =>
          exact diagnosis_of_memberSegment (fun ended => nonempty (by simp [ended])) read

/-- Behind a segment with a further character, that is no separator, the fault is that character. -/
theorem diagnosis_of_unseparated
    {start : Nat} {rest : String} {found : Segment} {piece : String} {char : Char}
    {further : List Char} (cuts : found.Cuts start rest.toList piece)
    (behind : found.after = char :: further) (unseparated : char ≠ Step.separator) :
    Diagnosis start rest ⟨found.stop, .trailingCharacters⟩ := by
  have spells := cuts.spells
  rw [cuts.stop_eq, utf8Length_toList]
  obtain rfl : rest = piece ++ String.ofList (char :: further) := by
    apply String.toList_inj.mp
    rw [cuts.joined, behind]
    simp
  cases step : found.step with
  | member name => exact absurd (cuts.boundary name step char (by simp [behind])) unseparated
  | element index =>
      rw [step] at spells
      have later : start ≠ 0 := by
        intro first
        obtain ⟨name, named⟩ := cuts.placed first
        rw [step] at named
        cases named
      exact .trailingCharacters spells later (by simp) unseparated

/-- A diagnosis is what is reported. -/
theorem Diagnosis.reported
    {start : Nat} {rest : String} {malformation : Malformation}
    (diagnosis : Diagnosis start rest malformation) :
    collect (Cursor.items ⟨start, rest.toList, false⟩) = .error malformation := by
  rw [collect_items]
  cases diagnosis with
  | emptyPath first =>
      subst first
      rfl
  | missingSegment later => simp [segment, later]
  | unclosedIndex unclosed =>
      rw [toList_opened, segment_of_opening, elementSegment_unclosed unclosed]
  | invalidIndex unmarked invalid =>
      rw [toList_closed, segment_of_opening, elementSegment_closed unmarked, if_pos invalid]
  | indexOverflow isNumeral large =>
      rw [toList_closed, segment_of_opening,
        elementSegment_closed (elementClosing_not_mem isNumeral.2),
        if_neg (not_not_intro isNumeral), if_pos large]
  | leadingIndex spells first =>
      rw [String.toList_append, segment_of_position spells, if_pos first]
  | @trailingCharacters piece after index char spells later behind unseparated =>
      obtain ⟨further, chars⟩ := List.head?_eq_some_iff.mp behind
      rw [String.toList_append, segment_of_position spells, if_neg later, chars, utf8Length_toList]
      exact if_neg unseparated
  | emptySegment =>
      simp [segment, memberSegment, dropOpening?, Step.elementOpening, Step.separator]

/-- A text has one diagnosis at most. -/
theorem Diagnosis.unique
    {start : Nat} {rest : String} {malformation other : Malformation}
    (diagnosis : Diagnosis start rest malformation) (another : Diagnosis start rest other) :
    malformation = other := by
  have reported := diagnosis.reported
  rw [another.reported] at reported
  exact (Except.error.inj reported).symm

theorem isValid_zero (text : String) :
    String.Pos.Raw.IsValid text ⟨0⟩ :=
  String.Pos.Raw.isValid_iff_exists_append.mpr ⟨"", text, String.empty_append.symm, rfl⟩

theorem isValid_append (before rest : String) :
    String.Pos.Raw.IsValid (before ++ rest) ⟨before.utf8ByteSize⟩ :=
  String.Pos.Raw.isValid_iff_exists_append.mpr ⟨before, rest, rfl, rfl⟩

/-- A fault is found between two characters of the text. -/
theorem Diagnosis.isValid
    {before rest : String} {malformation : Malformation}
    (diagnosis : Diagnosis before.utf8ByteSize rest malformation) :
    String.Pos.Raw.IsValid (before ++ rest) ⟨malformation.offset⟩ := by
  have behindOpening (body : String) :
      String.Pos.Raw.IsValid (before ++ ("Array.data[" ++ body)) ⟨before.utf8ByteSize + 11⟩ := by
    have valid := isValid_append (before ++ "Array.data[") body
    rwa [String.append_assoc, String.utf8ByteSize_append] at valid
  cases diagnosis with
  | emptyPath first => exact isValid_zero _
  | missingSegment later => exact isValid_append before ""
  | unclosedIndex unclosed => exact behindOpening _
  | invalidIndex unmarked invalid =>
      rw [String.append_assoc, String.append_assoc]
      exact behindOpening _
  | indexOverflow isNumeral large =>
      rw [String.append_assoc, String.append_assoc]
      exact behindOpening _
  | leadingIndex spells first => exact isValid_zero _
  | @trailingCharacters piece after index char spells later behind unseparated =>
      have valid := isValid_append (before ++ piece) after
      rwa [String.append_assoc, String.utf8ByteSize_append] at valid
  | emptySegment => exact isValid_append before _

/-! ## The text in front of a fault -/

/-- The text `before` consists of whole segments with a separator behind each of them, and it is cut
into them also in front of the text `rest`. -/
structure Passed (before rest : String) (segments : List String) (steps : List Step) : Prop where
  joined : before = String.join (segments.map (· ++ "."))
  spelled : List.Forall₂ Spells segments steps
  startsWithName : ∀ step ∈ steps.head?, ∃ name, step = .member name
  noOpening : steps.IsChain fun first second => ¬ FormOpening first second
  noOpeningBehind : ∀ body, rest = "data[" ++ body → steps.getLast? ≠ some (.member "Array")

theorem Passed.start (text : String) : Passed "" text [] [] where
  joined := rfl
  spelled := .nil
  startsWithName := by simp
  noOpening := .nil
  noOpeningBehind := by simp

theorem Passed.steps_ne_nil
    {before rest : String} {segments : List String} {steps : List Step}
    (passed : Passed before rest segments steps) (later : before ≠ "") :
    steps ≠ [] := by
  rintro rfl
  apply later
  rw [passed.joined, List.forall₂_nil_right_iff.mp passed.spelled]
  rfl

/-- One more segment is passed where it is read with a separator behind it. -/
theorem Passed.segment
    {before rest piece : String} {segments : List String} {steps : List Step} {step : Step}
    (passed : Passed before (piece ++ "." ++ rest) segments steps) (spells : Spells piece step)
    (placed : before = "" → ∃ name, step = .member name)
    (plain : ∀ name, step = .member name →
      ¬ Step.elementOpening <+: (piece ++ "." ++ rest).toList) :
    Passed (before ++ (piece ++ ".")) rest (segments ++ [piece]) (steps ++ [step]) := by
  constructor
  case joined =>
    rw [List.map_append, String.join_append, ← passed.joined]
    simp
  case spelled => exact List.rel_append passed.spelled (.cons spells .nil)
  case startsWithName =>
    cases steps with
    | nil =>
        have atStart : before = "" := by
          by_contra later
          exact passed.steps_ne_nil later rfl
        simpa using placed atStart
    | cons first steps => simpa using passed.startsWithName
  case noOpening =>
    refine passed.noOpening.append (.singleton _) fun last ends next starts => ?_
    obtain rfl : step = next := by simpa using starts
    rintro ⟨rfl, body, rfl⟩
    cases spells with
    | name nonempty undivided =>
        exact passed.noOpeningBehind (body ++ "." ++ rest) (by simp [String.append_assoc]) ends
  case noOpeningBehind =>
    rintro body rfl ends
    obtain rfl : step = .member "Array" := by simpa using ends
    cases spells with
    | name nonempty undivided =>
        apply plain "Array" rfl
        exact ⟨body.toList, by simp [Step.elementOpening]⟩

/-! ## The leftmost fault -/

theorem collect_cons_eq_error_iff
    {step : Step} {items : List (Except Malformation Step)} {malformation : Malformation} :
    collect (.ok step :: items) = .error malformation ↔ collect items = .error malformation := by
  rw [collect]
  cases collect items <;> simp [Except.map]

/-- A text that is refused either has its fault in front, or a segment with a separator behind it,
and then the text behind that is refused. -/
theorem fault_or_segment
    {start : Nat} {rest : String} {malformation : Malformation}
    (rejected : collect (Cursor.items ⟨start, rest.toList, false⟩) = .error malformation) :
    (Cursor.items ⟨start, rest.toList, false⟩ = [.error malformation] ∧
        Diagnosis start rest malformation) ∨
      ∃ piece step further, rest = piece ++ "." ++ further ∧ Spells piece step ∧
        (start = 0 → ∃ name, step = .member name) ∧
        (∀ name, step = .member name → ¬ Step.elementOpening <+: rest.toList) ∧
        Cursor.items ⟨start, rest.toList, false⟩ =
          .ok step ::
            Cursor.items ⟨start + (piece ++ ".").utf8ByteSize, further.toList, false⟩ := by
  have items := Cursor.items_segment start rest.toList
  cases read : segment start rest.toList with
  | error found =>
      simp only [read] at items
      rw [items] at rejected
      cases rejected
      exact .inl ⟨items, diagnosis_of_segment read⟩
  | ok found =>
      obtain ⟨piece, cuts⟩ := cuts_of_segment read
      cases behind : found.after with
      | nil =>
          simp only [read, behind] at items
          rw [items] at rejected
          cases rejected
      | cons mark further =>
          by_cases separated : mark = Step.separator
          · simp only [read, behind, if_pos separated] at items
            have joined : rest = piece ++ "." ++ String.ofList further := by
              apply String.toList_inj.mp
              rw [cuts.joined, behind, separated]
              simp [Step.separator]
            have stop : found.stop + 1 = start + (piece ++ ".").utf8ByteSize := by
              rw [cuts.stop_eq, utf8Length_toList, String.utf8ByteSize_append]
              rfl
            rw [stop] at items
            refine .inr ⟨piece, found.step, String.ofList further, joined, cuts.spells,
              cuts.placed, cuts.plain, ?_⟩
            rwa [String.toList_ofList]
          · simp only [read, behind, if_neg separated] at items
            rw [items] at rejected
            cases rejected
            exact .inl ⟨items, diagnosis_of_unseparated cuts behind separated⟩

/-- Reading goes on segment by segment up to the place of the fault. -/
theorem exists_diagnosis
    {before rest : String} {segments : List String} {steps : List Step}
    {malformation : Malformation} (passed : Passed before rest segments steps)
    (rejected : collect (Cursor.items ⟨before.utf8ByteSize, rest.toList, false⟩) =
      .error malformation) :
    ∃ consumed behind moreSegments moreSteps,
      rest = consumed ++ behind ∧
      Passed (before ++ consumed) behind (segments ++ moreSegments) (steps ++ moreSteps) ∧
      Cursor.items ⟨before.utf8ByteSize, rest.toList, false⟩ =
        moreSteps.map .ok ++ [.error malformation] ∧
      Diagnosis (before ++ consumed).utf8ByteSize behind malformation := by
  induction sized : rest.length using Nat.strong_induction_on
    generalizing before rest segments steps with
  | _ size inductionHypothesis =>
      rcases fault_or_segment rejected with
        ⟨yielded, diagnosis⟩ | ⟨piece, step, further, rfl, spells, placed, plain, yielded⟩
      · exact ⟨"", rest, [], [], by simp, by simpa using passed, yielded, by simpa using diagnosis⟩
      · rw [yielded, collect_cons_eq_error_iff, ← String.utf8ByteSize_append] at rejected
        have named : before = "" → ∃ name, step = .member name := by
          rintro rfl
          exact placed rfl
        have shorter : further.length < size := by
          rw [← sized]
          simp only [String.length_append]
          have : ".".length = 1 := rfl
          omega
        obtain ⟨consumed, behind, moreSegments, moreSteps, split, passedAll, rest, diagnosis⟩ :=
          inductionHypothesis _ shorter (passed.segment spells named plain) rejected rfl
        refine ⟨piece ++ "." ++ consumed, behind, piece :: moreSegments, step :: moreSteps,
          ?_, ?_, ?_, ?_⟩
        · simp only [split, String.append_assoc]
        · simpa [String.append_assoc] using passedAll
        · rw [yielded, ← String.utf8ByteSize_append, rest]
          rfl
        · simpa [String.append_assoc] using diagnosis

/-- Where and why a text is refused: `before` is what the text has in front of the fault, and
`steps` are the steps of its segments. -/
structure FaultAt (text before rest : String) (steps : List Step) (malformation : Malformation) :
    Prop where
  split : text = before ++ rest
  passed : ∃ segments, Passed before rest segments steps
  yielded : items text = steps.map .ok ++ [.error malformation]
  diagnosis : Diagnosis before.utf8ByteSize rest malformation
  unique : ∀ other, Diagnosis before.utf8ByteSize rest other → other = malformation
  offset_le : malformation.offset ≤ text.utf8ByteSize
  isValid : String.Pos.Raw.IsValid text ⟨malformation.offset⟩

theorem collect_of_ofText
    {text : String} {error : AccessError} (refused : ofText text = .error error) :
    ∃ malformation, collect (items text) = .error malformation ∧
      error = .malformedPath text malformation := by
  have steps := steps_parse text
  cases parsed : parse text with
  | ok path =>
      rw [ofText_of_parse parsed] at refused
      cases refused
  | error malformation =>
      rw [parsed] at steps
      rw [ofText_of_parse_error parsed] at refused
      cases refused
      exact ⟨malformation, steps.symm, rfl⟩

/-- A text that is refused is refused for the leftmost fault in it, which lies between two
characters of the text or at its end. -/
theorem faultAt_of_ofText
    {text : String} {error : AccessError} (refused : ofText text = .error error) :
    ∃ before rest steps malformation,
      error = .malformedPath text malformation ∧ FaultAt text before rest steps malformation := by
  obtain ⟨malformation, rejected, rfl⟩ := collect_of_ofText refused
  obtain ⟨before, rest, segments, steps, split, passed, yielded, diagnosis⟩ :=
    exists_diagnosis (Passed.start text) rejected
  rw [String.empty_append] at passed diagnosis
  rw [List.nil_append] at passed
  have isValid := split ▸ diagnosis.isValid
  exact ⟨before, rest, steps, malformation, rfl, split, ⟨segments, passed⟩, yielded, diagnosis,
    fun other another => another.unique diagnosis, isValid.le_utf8ByteSize, isValid⟩

/-- Names may hold characters of several bytes. Behind the second step of this text there is an
index with a further character behind it, at byte 24. -/
theorem faultAt_of_ofText_trailing :
    ofText "größe.Ä.Array.data[7]x" =
        .error (.malformedPath "größe.Ä.Array.data[7]x" ⟨24, .trailingCharacters⟩) ∧
      ∃ before rest steps,
        FaultAt "größe.Ä.Array.data[7]x" before rest steps ⟨24, .trailingCharacters⟩ := by
  have refused : ofText "größe.Ä.Array.data[7]x" =
      .error (.malformedPath "größe.Ä.Array.data[7]x" ⟨24, .trailingCharacters⟩) := by
    decide +kernel
  refine ⟨refused, ?_⟩
  obtain ⟨before, rest, steps, malformation, error, fault⟩ := faultAt_of_ofText refused
  cases error
  exact ⟨before, rest, steps, fault⟩

end Path

end ObjectGraph
