import ObjectGraph.Path.Step

/-!
# Reading a path step by step

A cursor stands at a place of a path text and yields one step at a time. The grammar is

* path: segment, then any number of times a separator and a segment;
* segment: `Array.data[` digits `]`, or a nonempty run of characters without the separator.

The opening of an element step contains the separator, so the first form is always tried first. The
cursor stops for good after the first fault. Places are counted in bytes of UTF-8.
-/

namespace ObjectGraph

namespace Path

inductive Fault where
  | emptyPath
  | emptySegment
  | invalidIndex
  | indexOverflow
  | unclosedIndex
  | trailingCharacters
  | leadingIndex
  deriving DecidableEq, Repr, Inhabited

def Fault.message : Fault → String
  | emptyPath => "the path is empty"
  | emptySegment => "empty segment"
  | invalidIndex => "index must be one or more ASCII digits"
  | indexOverflow => "index does not fit in usize"
  | unclosedIndex => "missing `]` after index"
  | trailingCharacters => "expected `.` or the end of the path after `]`"
  | leadingIndex => "a path cannot start with an index"

/-- A fault together with the byte at which it was found. -/
structure Malformation where
  offset : Nat
  fault : Fault
  deriving DecidableEq, Repr, Inhabited

/-- The number of bytes that UTF-8 takes for these characters. -/
def utf8Length : List Char → Nat
  | [] => 0
  | char :: chars => char.utf8Size + utf8Length chars

def dropOpening? : List Char → List Char → Option (List Char)
  | [], text => some text
  | _ :: _, [] => none
  | expected :: opening, found :: text =>
      if expected = found then dropOpening? opening text else none

def decimalValue (digits : List Char) : Nat :=
  digits.foldl (fun value digit => 10 * value + (digit.toNat - '0'.toNat)) 0

/-- A segment that was read: its step, the byte at which it ends, and the text behind it. -/
structure Segment where
  step : Step
  stop : Nat
  after : List Char
  deriving DecidableEq, Repr

/-- Reads the rest of an element step that starts at byte `start`; `body` is the text behind its
opening. The closing character is searched in the whole text, separators included. -/
def elementSegment (start : Nat) (body : List Char) : Except Malformation Segment :=
  let digitsAt := start + utf8Length Step.elementOpening
  let digits := body.takeWhile (· != Step.elementClosing)
  match body.dropWhile (· != Step.elementClosing) with
  | [] => .error ⟨digitsAt, .unclosedIndex⟩
  | _ :: after =>
      if digits.isEmpty || !digits.all Char.isDigit then
        .error ⟨digitsAt, .invalidIndex⟩
      else if Step.indexLimit ≤ decimalValue digits then
        .error ⟨digitsAt, .indexOverflow⟩
      else if start = 0 then
        .error ⟨start, .leadingIndex⟩
      else
        .ok ⟨.element (decimalValue digits), digitsAt + utf8Length digits + 1, after⟩

def memberSegment (start : Nat) (rest : List Char) : Except Malformation Segment :=
  let name := rest.takeWhile (· != Step.separator)
  if name.isEmpty then
    .error ⟨start, .emptySegment⟩
  else
    .ok ⟨.member (String.ofList name), start + utf8Length name,
      rest.dropWhile (· != Step.separator)⟩

def segment (start : Nat) (rest : List Char) : Except Malformation Segment :=
  if rest.isEmpty then
    .error ⟨start, if start = 0 then .emptyPath else .emptySegment⟩
  else
    match dropOpening? Step.elementOpening rest with
    | some body => elementSegment start body
    | none => memberSegment start rest

/-- A place in a path text: the bytes before it, the text behind it, and whether the reading has
ended. -/
structure Cursor where
  offset : Nat
  rest : List Char
  finished : Bool
  deriving DecidableEq, Repr

namespace Cursor

def start (text : String) : Cursor :=
  ⟨0, text.toList, false⟩

/-- Yields the next step, or the fault that ends the reading, and moves on. A segment must be
followed by a separator, which is passed over, or by the end of the text. -/
def next? (cursor : Cursor) : Option (Except Malformation Step × Cursor) :=
  if cursor.finished then
    none
  else
    match segment cursor.offset cursor.rest with
    | .error malformation => some (.error malformation, { cursor with finished := true })
    | .ok found =>
        match found.after with
        | [] => some (.ok found.step, ⟨found.stop, [], true⟩)
        | mark :: rest =>
            if mark = Step.separator then
              some (.ok found.step, ⟨found.stop + 1, rest, false⟩)
            else
              some (.error ⟨found.stop, .trailingCharacters⟩, ⟨found.stop, mark :: rest, true⟩)

/-- How much reading can still happen: nothing after the end, and otherwise more than the characters
that are left. -/
def weight (cursor : Cursor) : Nat :=
  if cursor.finished then 0 else cursor.rest.length + 1

end Cursor

theorem length_dropOpening?
    {opening text body : List Char}
    (found : dropOpening? opening text = some body) :
    text.length = opening.length + body.length := by
  induction opening generalizing text with
  | nil => simp_all [dropOpening?]
  | cons expected opening inductionHypothesis =>
      cases text with
      | nil => simp [dropOpening?] at found
      | cons first text =>
          simp only [dropOpening?] at found
          split at found
          · have := inductionHypothesis found
            simp only [List.length_cons]
            omega
          · simp at found

theorem length_dropWhile_le
    (keep : Char → Bool) (text : List Char) :
    (text.dropWhile keep).length ≤ text.length :=
  (List.dropWhile_suffix keep).length_le

/-- What stands behind a segment is no longer than the text in which the segment was read. -/
theorem length_segment_after
    {start : Nat} {rest : List Char} {found : Segment}
    (read : segment start rest = .ok found) :
    found.after.length ≤ rest.length := by
  unfold segment at read
  split at read
  · simp at read
  · split at read
    · next body opened =>
        have total := length_dropOpening? opened
        have shorter := length_dropWhile_le (· != Step.elementClosing) body
        simp only [elementSegment] at read
        split at read
        · simp at read
        · next mark after dropped =>
            rw [dropped] at shorter
            simp only [List.length_cons] at shorter
            split at read
            · simp at read
            · split at read
              · simp at read
              · split at read
                · simp at read
                · simp only [Except.ok.injEq] at read
                  subst read
                  simp only
                  omega
    · simp only [memberSegment] at read
      split at read
      · simp at read
      · simp only [Except.ok.injEq] at read
        subst read
        exact length_dropWhile_le _ rest

/-- Every move of a cursor leaves less to read. -/
theorem Cursor.weight_next?
    {cursor moved : Cursor} {item : Except Malformation Step}
    (yielded : cursor.next? = some (item, moved)) :
    moved.weight < cursor.weight := by
  unfold Cursor.next? at yielded
  split at yielded
  · simp at yielded
  · next unfinished =>
      have positive : cursor.weight = cursor.rest.length + 1 := by
        simp [weight, unfinished]
      rw [positive]
      split at yielded
      · simp only [Option.some.injEq, Prod.mk.injEq] at yielded
        obtain ⟨_, rfl⟩ := yielded
        simp [weight]
      · next found read =>
          have shorter := length_segment_after read
          split at yielded
          · simp only [Option.some.injEq, Prod.mk.injEq] at yielded
            obtain ⟨_, rfl⟩ := yielded
            simp [weight]
          · next mark rest behind =>
              rw [behind] at shorter
              simp only [List.length_cons] at shorter
              split at yielded
              · simp only [Option.some.injEq, Prod.mk.injEq] at yielded
                obtain ⟨_, rfl⟩ := yielded
                simp only [weight, Bool.false_eq_true, if_false]
                omega
              · simp only [Option.some.injEq, Prod.mk.injEq] at yielded
                obtain ⟨_, rfl⟩ := yielded
                simp [weight]

def Cursor.items (cursor : Cursor) : List (Except Malformation Step) :=
  match _yielded : cursor.next? with
  | none => []
  | some (item, moved) => item :: moved.items
termination_by cursor.weight
decreasing_by exact Cursor.weight_next? _yielded

/-- A cursor that has not ended yields at least one more item. -/
theorem Cursor.items_ne_nil
    {cursor : Cursor}
    (unfinished : cursor.finished = false) :
    cursor.items ≠ [] := by
  rw [Cursor.items]
  split
  · next ended =>
      unfold Cursor.next? at ended
      simp only [unfinished, Bool.false_eq_true, if_false] at ended
      split at ended
      · simp at ended
      · split at ended
        · simp at ended
        · split at ended <;> simp at ended
  · simp

end Path

end ObjectGraph
