import Mathlib.Data.List.Forall2
import Mathlib.Data.Nat.Digits.Defs
import ObjectGraph.Path.Basic
import ObjectGraph.Proofs.Lists

/-!
# The language of path texts

A path text is a sequence of segments with separators between them. A segment spells a step:

* a nonempty text without separator spells the member of that name;
* `Array.data[`, decimal digits and `]` spell the element at the position that the digits denote.

The opening of the second form contains the separator, so segments alone do not determine the steps.
Two conditions do: the first segment is a name, and the name `Array` is never followed by a name
that starts with `data[`. The texts that are read are exactly those with such a decomposition, and
they have only one.
-/

namespace ObjectGraph

namespace Path

/-! ## Segments and decompositions -/

/-- The number that decimal digits denote: the last digit counts once, the one before it ten times,
and so on. -/
def numeral (digits : String) : Nat :=
  Nat.ofDigits 10 (digits.toList.reverse.map fun digit => digit.toNat - '0'.toNat)

/-- The steps that segments of a path text stand for. -/
inductive Spells : String → Step → Prop where
  | name {name : String} (nonempty : name ≠ "") (undivided : '.' ∉ name.toList) :
      Spells name (.member name)
  | position {digits : String} (nonempty : digits ≠ "")
      (decimal : ∀ digit ∈ digits.toList, digit.isDigit) (small : numeral digits < 2 ^ 64) :
      Spells ("Array.data[" ++ digits ++ "]") (.element (numeral digits))

/-- Two names whose segments would read as the opening of an element step when joined. -/
def FormOpening (first second : Step) : Prop :=
  first = .member "Array" ∧ ∃ rest, second = .member ("data[" ++ rest)

/-- A way to take a path text apart. -/
structure Decomposition (text : String) (segments : List String) (steps : List Step) : Prop where
  joined : text = ".".intercalate segments
  spelled : List.Forall₂ Spells segments steps
  startsWithName : ∃ name, steps.head? = some (.member name)
  noOpening : steps.IsChain fun first second => ¬ FormOpening first second

/-! ## Pieces of text -/

theorem utf8Length_append (first second : List Char) :
    utf8Length (first ++ second) = utf8Length first + utf8Length second := by
  induction first with
  | nil => simp [utf8Length]
  | cons char first inductionHypothesis =>
      simp only [List.cons_append, utf8Length, inductionHypothesis]
      omega

theorem decimalValue_toList (digits : String) :
    decimalValue digits.toList = numeral digits := by
  rw [decimalValue, numeral, Nat.ofDigits_eq_foldr, List.foldr_map, List.foldr_reverse]
  congr 1
  funext value digit
  exact Nat.add_comm _ _

theorem dropOpening?_eq_some_iff {opening text body : List Char} :
    dropOpening? opening text = some body ↔ text = opening ++ body := by
  induction opening generalizing text with
  | nil => simp [dropOpening?]
  | cons expected opening inductionHypothesis =>
      cases text with
      | nil => simp [dropOpening?]
      | cons found text =>
          by_cases same : expected = found
          · simp [dropOpening?, same, inductionHypothesis]
          · simp [dropOpening?, same, Ne.symm same]

theorem dropOpening?_eq_none_iff {opening text : List Char} :
    dropOpening? opening text = none ↔ ¬ opening <+: text := by
  rw [Option.eq_none_iff_forall_ne_some]
  constructor
  · rintro absent ⟨body, joined⟩
    exact absent body (dropOpening?_eq_some_iff.mpr joined.symm)
  · intro absent body found
    exact absent ⟨body, (dropOpening?_eq_some_iff.mp found).symm⟩

/-- What may follow a segment: nothing, or a separator. -/
def AtBoundary (mark : Char) (after : List Char) : Prop :=
  ∀ char ∈ after.head?, char = mark

section Boundary

variable {mark : Char} {body after : List Char}

theorem takeWhile_append_of_atBoundary
    (absent : mark ∉ body) (boundary : AtBoundary mark after) :
    (body ++ after).takeWhile (· != mark) = body := by
  have before : ∀ char ∈ body, (char != mark) = true := by
    intro char present
    exact bne_iff_ne.mpr fun same => absent (same ▸ present)
  rw [List.takeWhile_append_of_pos before]
  cases after with
  | nil => simp
  | cons char after => simp [boundary char rfl]

theorem dropWhile_append_of_atBoundary
    (absent : mark ∉ body) (boundary : AtBoundary mark after) :
    (body ++ after).dropWhile (· != mark) = after := by
  have before : ∀ char ∈ body, (char != mark) = true := by
    intro char present
    exact bne_iff_ne.mpr fun same => absent (same ▸ present)
  rw [List.dropWhile_append_of_pos before]
  cases after with
  | nil => rfl
  | cons char after => simp [boundary char rfl]

/-- A text is cut at the first mark in one way. -/
theorem append_inj_of_atBoundary
    {first second firstAfter secondAfter : List Char}
    (firstAbsent : mark ∉ first) (secondAbsent : mark ∉ second)
    (firstBoundary : AtBoundary mark firstAfter) (secondBoundary : AtBoundary mark secondAfter)
    (joined : first ++ firstAfter = second ++ secondAfter) :
    first = second ∧ firstAfter = secondAfter := by
  constructor
  · rw [← takeWhile_append_of_atBoundary firstAbsent firstBoundary, joined,
      takeWhile_append_of_atBoundary secondAbsent secondBoundary]
  · rw [← dropWhile_append_of_atBoundary firstAbsent firstBoundary, joined,
      dropWhile_append_of_atBoundary secondAbsent secondBoundary]

theorem atBoundary_cons (mark : Char) (after : List Char) :
    AtBoundary mark (mark :: after) := by
  rintro char ⟨⟩
  rfl

end Boundary

/-! ## Reading one segment -/

theorem toList_position (digits : String) :
    ("Array.data[" ++ digits ++ "]").toList =
      Step.elementOpening ++ digits.toList ++ [Step.elementClosing] := by
  simp [Step.elementOpening, Step.elementClosing]

theorem elementClosing_not_mem
    {digits : String} (decimal : ∀ digit ∈ digits.toList, digit.isDigit) :
    Step.elementClosing ∉ digits.toList := by
  intro present
  exact absurd (decimal _ present) (by decide)

/-- A text that can stand between the brackets of an element step. -/
def IsNumeral (digits : String) : Prop :=
  digits ≠ "" ∧ ∀ digit ∈ digits.toList, digit.isDigit

instance (digits : String) : Decidable (IsNumeral digits) :=
  inferInstanceAs (Decidable (_ ∧ _))

theorem isNumeral_iff (digits : String) :
    IsNumeral digits ↔ (digits.toList.isEmpty || !digits.toList.all Char.isDigit) = false := by
  simp [IsNumeral]

theorem utf8Length_elementOpening : utf8Length Step.elementOpening = 11 := by
  decide

/-- Without a closing bracket, no element step is read. -/
theorem elementSegment_unclosed
    {body : List Char} (unclosed : Step.elementClosing ∉ body) (start : Nat) :
    elementSegment start body = .error ⟨start + 11, .unclosedIndex⟩ := by
  have nothing : AtBoundary Step.elementClosing [] := by simp [AtBoundary]
  have dropped := dropWhile_append_of_atBoundary unclosed nothing
  rw [List.append_nil] at dropped
  simp only [elementSegment, dropped, utf8Length_elementOpening]

/-- What stands in front of the first closing bracket is checked in this order. -/
theorem elementSegment_closed
    {digits : String} (unmarked : Step.elementClosing ∉ digits.toList) (start : Nat)
    (after : List Char) :
    elementSegment start (digits.toList ++ Step.elementClosing :: after) =
      if ¬ IsNumeral digits then
        .error ⟨start + 11, .invalidIndex⟩
      else if 2 ^ 64 ≤ numeral digits then
        .error ⟨start + 11, .indexOverflow⟩
      else if start = 0 then
        .error ⟨0, .leadingIndex⟩
      else
        .ok ⟨.element (numeral digits),
          start + utf8Length ("Array.data[" ++ digits ++ "]").toList, after⟩ := by
  have boundary := atBoundary_cons Step.elementClosing after
  have taken := takeWhile_append_of_atBoundary unmarked boundary
  have dropped := dropWhile_append_of_atBoundary unmarked boundary
  have closingSize : utf8Length [Step.elementClosing] = 1 := by decide
  have limit : Step.indexLimit = 2 ^ 64 := rfl
  simp only [elementSegment, taken, dropped, decimalValue_toList, toList_position,
    utf8Length_append, closingSize, utf8Length_elementOpening, isNumeral_iff, limit,
    Bool.not_eq_false, Nat.add_assoc]
  by_cases first : start = 0
  · simp only [first, if_true]
  · simp only [first, if_false]

theorem segment_of_opening (start : Nat) (body : List Char) :
    segment start (Step.elementOpening ++ body) = elementSegment start body := by
  have opened : dropOpening? Step.elementOpening (Step.elementOpening ++ body) = some body :=
    dropOpening?_eq_some_iff.mpr rfl
  have someChars : (Step.elementOpening ++ body).isEmpty = false := rfl
  simp only [segment, someChars, opened, Bool.false_eq_true, if_false]

/-- Whatever is behind it, a segment that spells a position is read as that, but not at the start of
a path. -/
theorem segment_of_position
    {piece : String} {index : Nat} (spells : Spells piece (.element index)) (start : Nat)
    (after : List Char) :
    segment start (piece.toList ++ after) =
      if start = 0 then
        .error ⟨0, .leadingIndex⟩
      else
        .ok ⟨.element index, start + utf8Length piece.toList, after⟩ := by
  cases spells with
  | @position digits nonempty decimal small =>
      have isNumeral : IsNumeral digits := ⟨nonempty, decimal⟩
      have opened : ("Array.data[" ++ digits ++ "]").toList ++ after =
          Step.elementOpening ++ (digits.toList ++ Step.elementClosing :: after) := by
        rw [toList_position]
        simp
      rw [opened, segment_of_opening, elementSegment_closed (elementClosing_not_mem decimal),
        if_neg (not_not_intro isNumeral), if_neg (Nat.not_le_of_lt small)]

/-- A segment is read as the step that it spells, unless it is taken for the start of an element
step. -/
theorem segment_of_spells
    {piece : String} {step : Step} {start : Nat} {after : List Char}
    (spells : Spells piece step) (boundary : AtBoundary Step.separator after)
    (placed : start = 0 → ∃ name, step = .member name)
    (plain : ∀ name, step = .member name → ¬ Step.elementOpening <+: piece.toList ++ after) :
    segment start (piece.toList ++ after) =
      .ok ⟨step, start + utf8Length piece.toList, after⟩ := by
  cases step with
  | member name =>
      cases spells with
      | name nonempty divided =>
          have undivided : Step.separator ∉ piece.toList := divided
          have unopened := dropOpening?_eq_none_iff.mpr (plain piece rfl)
          have someChars : piece.toList ≠ [] := by simpa using nonempty
          have found := takeWhile_append_of_atBoundary undivided boundary
          have behind := dropWhile_append_of_atBoundary undivided boundary
          simp [segment, unopened, memberSegment, found, behind, someChars]
  | element index =>
      have later : start ≠ 0 := by
        intro first
        obtain ⟨name, contradictory⟩ := placed first
        cases contradictory
      rw [segment_of_position spells, if_neg later]

/-- The text behind the opening of an element step either has no closing bracket or is cut at the
first one. -/
theorem unclosed_or_closed (body : List Char) :
    Step.elementClosing ∉ body ∨
      ∃ digits : String, ∃ after, body = digits.toList ++ Step.elementClosing :: after ∧
        Step.elementClosing ∉ digits.toList := by
  by_cases closed : Step.elementClosing ∈ body
  · obtain ⟨digits, after, rfl, unmarked⟩ := List.eq_append_cons_of_mem closed
    exact .inr ⟨String.ofList digits, after, by simp, by simpa using unmarked⟩
  · exact .inl closed

/-- A segment that was read from the start of a text: the piece of the text that it takes. -/
structure Segment.Cuts (start : Nat) (rest : List Char) (found : Segment) (piece : String) :
    Prop where
  spells : Spells piece found.step
  joined : rest = piece.toList ++ found.after
  stop_eq : found.stop = start + utf8Length piece.toList
  placed : start = 0 → ∃ name, found.step = .member name
  plain : ∀ name, found.step = .member name → ¬ Step.elementOpening <+: rest
  boundary : ∀ name, found.step = .member name → AtBoundary Step.separator found.after

theorem cuts_of_elementSegment
    {start : Nat} {body : List Char} {found : Segment}
    (read : elementSegment start body = .ok found) :
    ∃ piece, found.Cuts start (Step.elementOpening ++ body) piece := by
  rcases unclosed_or_closed body with unclosed | ⟨digits, after, rfl, unmarked⟩
  · rw [elementSegment_unclosed unclosed] at read
    cases read
  · rw [elementSegment_closed unmarked] at read
    split_ifs at read with isNumeral large first
    cases read
    refine ⟨_, .position isNumeral.1 isNumeral.2 (Nat.lt_of_not_le large), ?_, rfl,
      fun atStart => absurd atStart first, by rintro name ⟨⟩, by rintro name ⟨⟩⟩
    rw [toList_position]
    simp

theorem cuts_of_memberSegment
    {start : Nat} {rest : List Char} {found : Segment}
    (read : memberSegment start rest = .ok found) (unopened : ¬ Step.elementOpening <+: rest) :
    ∃ piece, found.Cuts start rest piece := by
  simp only [memberSegment] at read
  split_ifs at read with someChars
  cases read
  refine ⟨_, .name ?_ ?_, ?_, ?_, fun _ => ⟨_, rfl⟩, fun _ _ => unopened, fun _ _ => ?_⟩
  · simpa using someChars
  · rw [String.toList_ofList]
    exact not_mem_takeWhile_ne Step.separator rest
  · simp
  · simp
  · intro char behind
    have head := List.head?_dropWhile_not (· != Step.separator) rest
    rw [Option.mem_def.mp behind] at head
    simpa using head

theorem cuts_of_segment
    {start : Nat} {rest : List Char} {found : Segment}
    (read : segment start rest = .ok found) :
    ∃ piece, found.Cuts start rest piece := by
  unfold segment at read
  split at read
  · cases read
  · split at read
    · next body opened =>
        rw [dropOpening?_eq_some_iff.mp opened]
        exact cuts_of_elementSegment read
    · next unopened => exact cuts_of_memberSegment read (dropOpening?_eq_none_iff.mp unopened)

/-! ## Reading segment after segment -/

theorem Cursor.items_of_finished {cursor : Cursor} (finished : cursor.finished = true) :
    cursor.items = [] := by
  have ended : cursor.next? = none := by simp [next?, finished]
  rw [Cursor.items]
  split
  · rfl
  · next yielded =>
      rw [ended] at yielded
      cases yielded

theorem Cursor.items_of_next?
    {cursor moved : Cursor} {item : Except Malformation Step}
    (yields : cursor.next? = some (item, moved)) :
    cursor.items = item :: moved.items := by
  rw [Cursor.items]
  split
  · next ended =>
      rw [yields] at ended
      cases ended
  · next yielded =>
      rw [yields] at yielded
      cases yielded
      rfl

/-- A text yields the step of its first segment and then what the text behind the separator yields,
or a fault that ends it. -/
theorem Cursor.items_segment (start : Nat) (rest : List Char) :
    Cursor.items ⟨start, rest, false⟩ =
      match segment start rest with
      | .error malformation => [.error malformation]
      | .ok found =>
          match found.after with
          | [] => [.ok found.step]
          | mark :: further =>
              if mark = Step.separator then
                .ok found.step :: Cursor.items ⟨found.stop + 1, further, false⟩
              else
                [.error ⟨found.stop, .trailingCharacters⟩] := by
  cases read : segment start rest with
  | error malformation =>
      have yields : Cursor.next? ⟨start, rest, false⟩ =
          some (.error malformation, ⟨start, rest, true⟩) := by
        simp [Cursor.next?, read]
      simp only [Cursor.items_of_next? yields, Cursor.items_of_finished]
  | ok found =>
      obtain ⟨step, stop, after⟩ := found
      cases after with
      | nil =>
          have yields : Cursor.next? ⟨start, rest, false⟩ =
              some (.ok step, ⟨stop, [], true⟩) := by
            simp [Cursor.next?, read]
          simp only [Cursor.items_of_next? yields, Cursor.items_of_finished]
      | cons mark further =>
          by_cases separated : mark = Step.separator
          · have yields : Cursor.next? ⟨start, rest, false⟩ =
                some (.ok step, ⟨stop + 1, further, false⟩) := by
              simp [Cursor.next?, read, separated]
            simp only [Cursor.items_of_next? yields, if_pos separated]
          · have yields : Cursor.next? ⟨start, rest, false⟩ =
                some (.error ⟨stop, .trailingCharacters⟩, ⟨stop, mark :: further, true⟩) := by
              simp [Cursor.next?, read, separated]
            simp only [Cursor.items_of_next? yields, Cursor.items_of_finished, if_neg separated]

/-- The steps of a text are the step of its first segment and the steps of what follows the
separator behind it. -/
theorem collect_items (start : Nat) (rest : List Char) :
    collect (Cursor.items ⟨start, rest, false⟩) =
      match segment start rest with
      | .error malformation => .error malformation
      | .ok found =>
          match found.after with
          | [] => .ok [found.step]
          | mark :: further =>
              if mark = Step.separator then
                (collect (Cursor.items ⟨found.stop + 1, further, false⟩)).map (found.step :: ·)
              else
                .error ⟨found.stop, .trailingCharacters⟩ := by
  rw [Cursor.items_segment]
  cases segment start rest with
  | error malformation => rfl
  | ok found =>
      obtain ⟨step, stop, after⟩ := found
      cases after with
      | nil => rfl
      | cons mark further =>
          by_cases separated : mark = Step.separator
          · simp only [if_pos separated, collect]
          · simp only [if_neg separated, collect]

/-! ## Joined names -/

/-- The two parts of the opening of an element step, on either side of the separator in it. -/
theorem elementOpening_eq :
    Step.elementOpening = "Array".toList ++ Step.separator :: "data[".toList :=
  rfl

/-- A name at the end of a text is not taken for the start of an element step. -/
theorem not_startsWith_of_name
    {name : String} (undivided : Step.separator ∉ name.toList) :
    ¬ Step.elementOpening <+: name.toList := by
  intro opens
  exact undivided (opens.subset (by decide))

/-- A name with more text behind it is taken for the start of an element step only when the next
segment is a name too, and the two form an opening. -/
theorem formOpening_of_startsWith
    {name piece : String} {next : Step} {after : List Char}
    (undivided : Step.separator ∉ name.toList) (spells : Spells piece next)
    (boundary : AtBoundary Step.separator after)
    (opens : Step.elementOpening <+: name.toList ++ Step.separator :: (piece.toList ++ after)) :
    FormOpening (.member name) next := by
  obtain ⟨further, joined⟩ := opens
  rw [elementOpening_eq, List.append_assoc, List.cons_append] at joined
  obtain ⟨sameName, behind⟩ :=
    append_inj_of_atBoundary (by decide) undivided (atBoundary_cons _ _) (atBoundary_cons _ _)
      joined
  obtain rfl : name = "Array" := String.toList_inj.mp sameName.symm
  have rest : "data[".toList ++ further = piece.toList ++ after := (List.cons.inj behind).2
  cases spells with
  | position nonempty decimal small =>
      rw [toList_position] at rest
      simp [Step.elementOpening] at rest
  | name nonempty divided =>
      have undividedNext : Step.separator ∉ piece.toList := divided
      have unmarked : ∀ char ∈ "data[".toList, (char != Step.separator) = true := by
        simp [Step.separator]
      have taken := congrArg (List.takeWhile (· != Step.separator)) rest
      rw [takeWhile_append_of_atBoundary undividedNext boundary,
        List.takeWhile_append_of_pos unmarked] at taken
      refine ⟨rfl, String.ofList (further.takeWhile (· != Step.separator)), ?_⟩
      rw [Step.member.injEq, ← String.toList_inj, ← taken]
      simp

/-- Two names that form an opening are taken for the start of an element step. -/
theorem startsWith_of_formOpening
    {piece nextPiece : String} {step next : Step} {after : List Char} (spells : Spells piece step)
    (nextSpells : Spells nextPiece next) (forms : FormOpening step next) :
    Step.elementOpening <+: piece.toList ++ Step.separator :: (nextPiece.toList ++ after) := by
  obtain ⟨rfl, rest, rfl⟩ := forms
  cases spells with
  | name nonempty divided =>
      cases nextSpells with
      | name nextNonempty nextDivided => simp [elementOpening_eq]

/-! ## Whole texts -/

/-- What stands behind the first segment of a text. -/
theorem toList_intercalate_cons (piece : String) (pieces : List String) :
    ∃ after, (".".intercalate (piece :: pieces)).toList = piece.toList ++ after ∧
      AtBoundary Step.separator after ∧
      (pieces = [] → after = []) ∧
      (pieces ≠ [] → after = Step.separator :: (".".intercalate pieces).toList) := by
  cases pieces with
  | nil => exact ⟨[], by simp, by simp [AtBoundary], fun _ => rfl, fun other => absurd rfl other⟩
  | cons next pieces =>
      refine ⟨Step.separator :: (".".intercalate (next :: pieces)).toList, ?_,
        atBoundary_cons _ _, by simp, fun _ => rfl⟩
      rw [String.intercalate_cons_cons]
      simp [Step.separator]

/-- Where no two adjacent names form an opening, no name is taken for the start of an element
step. -/
theorem not_startsWith_of_spelled
    {piece name : String} {pieces : List String} {steps : List Step}
    (spells : Spells piece (.member name)) (spelled : List.Forall₂ Spells pieces steps)
    (noOpening : (Step.member name :: steps).IsChain fun first second =>
      ¬ FormOpening first second) :
    ¬ Step.elementOpening <+: (".".intercalate (piece :: pieces)).toList := by
  obtain ⟨after, joined, _, single, more⟩ := toList_intercalate_cons piece pieces
  rw [joined]
  cases spells with
  | name nonempty divided =>
      have undivided : Step.separator ∉ piece.toList := divided
      cases spelled with
      | nil =>
          rw [single rfl, List.append_nil]
          exact not_startsWith_of_name undivided
      | @cons next step pieces steps nextSpells spelled =>
          obtain ⟨further, nextJoined, boundary, _⟩ := toList_intercalate_cons next pieces
          rw [more (by simp), nextJoined]
          intro opens
          have allowed := (List.isChain_cons_cons.mp noOpening).1
          exact allowed (formOpening_of_startsWith undivided nextSpells boundary opens)

/-- A text with a decomposition is read as the steps of its segments. -/
theorem collect_items_of_spelled
    {pieces : List String} {steps : List Step} {start : Nat}
    (spelled : List.Forall₂ Spells pieces steps)
    (noOpening : steps.IsChain fun first second => ¬ FormOpening first second)
    (nonempty : steps ≠ [])
    (placed : start = 0 → ∃ name, steps.head? = some (.member name)) :
    collect (Cursor.items ⟨start, (".".intercalate pieces).toList, false⟩) = .ok steps := by
  induction spelled generalizing start with
  | nil => exact absurd rfl nonempty
  | @cons piece step pieces steps spells spelled inductionHypothesis =>
      have plain : ∀ name, step = .member name →
          ¬ Step.elementOpening <+: (".".intercalate (piece :: pieces)).toList := by
        rintro name rfl
        exact not_startsWith_of_spelled spells spelled noOpening
      obtain ⟨after, joined, boundary, single, more⟩ := toList_intercalate_cons piece pieces
      rw [joined] at plain
      have first : start = 0 → ∃ name, step = .member name := by
        intro atStart
        simpa using placed atStart
      rw [collect_items, joined, segment_of_spells spells boundary first plain]
      cases spelled with
      | nil => simp only [single rfl]
      | cons nextSpells spelled =>
          have rest := @inductionHypothesis (start + utf8Length piece.toList + 1)
            (List.isChain_cons_cons.mp noOpening).2 (by simp) (fun contradictory => by omega)
          simp only [more (by simp), if_true, rest, Except.map]

/-- What is read as several steps starts with a segment of the first one. Either the text ends
there, or a separator follows and the other steps are read from what is behind it. -/
theorem segment_of_collect_items
    {step : Step} {steps : List Step} {start : Nat} {rest : List Char}
    (read : collect (Cursor.items ⟨start, rest, false⟩) = .ok (step :: steps)) :
    ∃ stop after, segment start rest = .ok ⟨step, stop, after⟩ ∧
      (after = [] ∧ steps = [] ∨ ∃ further, after = Step.separator :: further ∧
        collect (Cursor.items ⟨stop + 1, further, false⟩) = .ok steps) := by
  rw [collect_items] at read
  cases found : segment start rest with
  | error malformation => simp [found] at read
  | ok segment =>
      obtain ⟨first, stop, after⟩ := segment
      simp only [found] at read
      cases after with
      | nil =>
          cases read
          exact ⟨stop, [], rfl, .inl ⟨rfl, rfl⟩⟩
      | cons mark further =>
          by_cases separated : mark = Step.separator
          · simp only [if_pos separated] at read
            cases collected : collect (Cursor.items ⟨stop + 1, further, false⟩) with
            | error malformation => simp [collected, Except.map] at read
            | ok remaining =>
                simp only [collected, Except.map, Except.ok.injEq, List.cons.injEq] at read
                obtain ⟨rfl, rfl⟩ := read
                exact ⟨stop, _, rfl, .inr ⟨further, by rw [separated], collected⟩⟩
          · simp only [if_neg separated] at read
            cases read

/-- The steps that are read from a text are spelled by segments of it. -/
theorem spelled_of_collect_items
    {steps : List Step} {start : Nat} {rest : List Char}
    (read : collect (Cursor.items ⟨start, rest, false⟩) = .ok steps) :
    ∃ pieces, rest = (".".intercalate pieces).toList ∧ List.Forall₂ Spells pieces steps ∧
      (steps.IsChain fun first second => ¬ FormOpening first second) ∧ steps ≠ [] ∧
      (start = 0 → ∃ name, steps.head? = some (.member name)) := by
  induction steps generalizing start rest with
  | nil =>
      have yielded := List.length_eq_zero_iff.mp (length_collect read).symm
      exact absurd yielded (Cursor.items_ne_nil rfl)
  | cons step steps inductionHypothesis =>
      obtain ⟨stop, after, found, ending⟩ := segment_of_collect_items read
      obtain ⟨piece, cuts⟩ := cuts_of_segment found
      have startsWithName : start = 0 → ∃ name, (step :: steps).head? = some (.member name) := by
        simpa using cuts.placed
      rcases ending with ⟨rfl, rfl⟩ | ⟨further, rfl, collected⟩
      · exact ⟨[piece], by simpa using cuts.joined, .cons cuts.spells .nil, .singleton _, by simp,
          startsWithName⟩
      · obtain ⟨pieces, behind, spelled, noOpening, nonempty, _⟩ := inductionHypothesis collected
        cases spelled with
        | nil => exact absurd rfl nonempty
        | @cons nextPiece next pieces steps nextSpells spelled =>
            obtain ⟨after, nextJoined, _⟩ := toList_intercalate_cons nextPiece pieces
            have allowed : ¬ FormOpening step next := by
              intro forms
              apply cuts.plain "Array" forms.1
              rw [cuts.joined, behind, nextJoined]
              exact startsWith_of_formOpening cuts.spells nextSpells forms
            refine ⟨piece :: nextPiece :: pieces, ?_, .cons cuts.spells (.cons nextSpells spelled),
              List.isChain_cons_cons.mpr ⟨allowed, noOpening⟩, by simp, startsWithName⟩
            rw [cuts.joined, behind, String.intercalate_cons_cons]
            simp [Step.separator]

/-! ## One decomposition -/

/-- The segment of a step ends in one place only. -/
theorem Spells.append_inj
    {step : Step} {first second : String} {firstAfter secondAfter : List Char}
    (firstSpells : Spells first step) (secondSpells : Spells second step)
    (joined : first.toList ++ firstAfter = second.toList ++ secondAfter) :
    first = second ∧ firstAfter = secondAfter := by
  cases step with
  | member name =>
      cases firstSpells with
      | name nonempty divided =>
          cases secondSpells with
          | name otherNonempty otherDivided => exact ⟨rfl, List.append_cancel_left joined⟩
  | element index =>
      generalize firstStep : Step.element index = step at firstSpells
      cases firstSpells with
      | name nonempty divided => cases firstStep
      | @position firstDigits nonempty firstDecimal small =>
          generalize secondStep : Step.element index = step at secondSpells
          cases secondSpells with
          | name nonempty divided => cases secondStep
          | @position secondDigits nonempty secondDecimal small =>
              simp only [toList_position, List.append_assoc, List.append_cancel_left_eq,
                List.singleton_append] at joined
              obtain ⟨same, behind⟩ := append_inj_of_atBoundary
                (elementClosing_not_mem firstDecimal) (elementClosing_not_mem secondDecimal)
                (atBoundary_cons _ _) (atBoundary_cons _ _) joined
              exact ⟨by rw [String.toList_inj.mp same], (List.cons.inj behind).2⟩

/-- Segments of the same steps that join to the same text are the same. -/
theorem segments_unique
    {steps : List Step} {first second : List String}
    (firstSpelled : List.Forall₂ Spells first steps)
    (secondSpelled : List.Forall₂ Spells second steps)
    (joined : ".".intercalate first = ".".intercalate second) :
    first = second := by
  induction firstSpelled generalizing second with
  | nil =>
      cases secondSpelled
      rfl
  | @cons firstPiece step first steps firstSpells firstSpelled inductionHypothesis =>
      cases secondSpelled with
      | @cons secondPiece _ second _ secondSpells secondSpelled =>
          obtain ⟨firstAfter, firstJoined, _, _, firstMore⟩ :=
            toList_intercalate_cons firstPiece first
          obtain ⟨secondAfter, secondJoined, _, _, secondMore⟩ :=
            toList_intercalate_cons secondPiece second
          have sameChars := congrArg String.toList joined
          rw [firstJoined, secondJoined] at sameChars
          obtain ⟨rfl, sameAfter⟩ := firstSpells.append_inj secondSpells sameChars
          by_cases ended : steps = []
          · subst ended
            cases firstSpelled
            cases secondSpelled
            rfl
          · have firstRest : first ≠ [] := by
              rintro rfl
              exact ended (by cases firstSpelled; rfl)
            have secondRest : second ≠ [] := by
              rintro rfl
              exact ended (by cases secondSpelled; rfl)
            rw [firstMore firstRest, secondMore secondRest] at sameAfter
            have sameRest := String.toList_inj.mp (List.cons.inj sameAfter).2
            rw [inductionHypothesis secondSpelled sameRest]

/-- A text is read as certain steps exactly when it decomposes into segments of these steps. -/
theorem collect_items_eq_ok_iff (text : String) (steps : List Step) :
    collect (items text) = .ok steps ↔ ∃ segments, Decomposition text segments steps := by
  constructor
  · intro read
    obtain ⟨segments, joined, spelled, noOpening, _, first⟩ := spelled_of_collect_items read
    exact ⟨segments, String.toList_inj.mp joined, spelled, first rfl, noOpening⟩
  · rintro ⟨segments, joined, spelled, startsWithName, noOpening⟩
    have nonempty : steps ≠ [] := by
      rintro rfl
      simp at startsWithName
    rw [joined]
    exact collect_items_of_spelled spelled noOpening nonempty fun _ => startsWithName

/-- The texts that are read as paths are those that decompose, and the path has the steps of the
segments. No text decomposes in two ways. -/
theorem parse_eq_ok_iff_decomposition (text : String) :
    (∀ steps, (parse text).map Path.steps = .ok steps ↔
      ∃ segments, Decomposition text segments steps) ∧
    ∀ segments steps otherSegments otherSteps,
      Decomposition text segments steps → Decomposition text otherSegments otherSteps →
        segments = otherSegments ∧ steps = otherSteps := by
  constructor
  · intro steps
    rw [steps_parse, collect_items_eq_ok_iff]
  · intro segments steps otherSegments otherSteps decomposed otherDecomposed
    have read := (collect_items_eq_ok_iff text steps).mpr ⟨segments, decomposed⟩
    have otherRead := (collect_items_eq_ok_iff text otherSteps).mpr ⟨otherSegments, otherDecomposed⟩
    obtain rfl : steps = otherSteps := by
      rw [read] at otherRead
      exact Except.ok.inj otherRead
    have joined := decomposed.joined.symm.trans otherDecomposed.joined
    exact ⟨segments_unique decomposed.spelled otherDecomposed.spelled joined, rfl⟩

end Path

end ObjectGraph
