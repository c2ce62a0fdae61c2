import ObjectGraph.Proofs.Diagnosis

/-!
# Reading a path text by bytes

A cursor carries the text that is still to be read. A reader keeps the whole text and the number of
the byte at which the next segment starts, and it cuts what it needs out of the text. A cut fails
when it leaves the text or goes through a character of several bytes. The reader never asks for such
a cut: from call to call it stands between two characters, where a cursor stands, and it answers
what the cursor yields.
-/

namespace ObjectGraph

namespace Path

/-! ## Cutting a text at bytes -/

/-- The text from one byte up to another one. It fails unless both lie between two characters or at
an end of the text, the first one not behind the second one. -/
def cut? (text : String) (first last : Nat) : Option String :=
  if valid : String.Pos.Raw.IsValid text ⟨first⟩ ∧ String.Pos.Raw.IsValid text ⟨last⟩ ∧
      first ≤ last then
    some (text.extract (text.pos ⟨first⟩ valid.1) (text.pos ⟨last⟩ valid.2.1))
  else
    none

/-- The byte at which a character is found first. -/
def byteIndex? (mark : Char) (text : String) : Option Nat :=
  if mark ∈ text.toList then
    some (utf8Length (text.toList.takeWhile (· != mark)))
  else
    none

theorem cut?_append (before piece after : String) :
    cut? (before ++ piece ++ after) before.utf8ByteSize
      (before.utf8ByteSize + piece.utf8ByteSize) = some piece := by
  have validFirst : String.Pos.Raw.IsValid (before ++ piece ++ after) ⟨before.utf8ByteSize⟩ := by
    rw [String.append_assoc]
    exact isValid_append before (piece ++ after)
  have validLast : String.Pos.Raw.IsValid (before ++ piece ++ after)
      ⟨before.utf8ByteSize + piece.utf8ByteSize⟩ := by
    rw [← String.utf8ByteSize_append]
    exact isValid_append (before ++ piece) after
  have splitsFirst : (String.pos _ _ validFirst).Splits before (piece ++ after) :=
    ⟨String.append_assoc, rfl⟩
  have splitsLast : (String.pos _ _ validLast).Splits (before ++ piece) after :=
    ⟨rfl, congrArg String.Pos.Raw.mk String.utf8ByteSize_append.symm⟩
  obtain ⟨inOrder, copied⟩ :=
    String.copy_slice_eq_iff_splits.mpr ⟨before, after, splitsFirst, splitsLast⟩
  rw [cut?, dif_pos ⟨validFirst, validLast, Nat.le_add_right _ _⟩, Option.some.injEq,
    String.extract_eq_copy_slice _ _ inOrder]
  exact copied

/-- What stands behind a text can be cut off. -/
theorem cut?_behind (before rest : String) :
    cut? (before ++ rest) before.utf8ByteSize (before ++ rest).utf8ByteSize = some rest := by
  have cut := cut?_append before rest ""
  rwa [String.append_empty, ← String.utf8ByteSize_append] at cut

/-- What stands in front of a text can be cut off. -/
theorem cut?_front (piece after : String) :
    cut? (piece ++ after) 0 piece.utf8ByteSize = some piece := by
  have cut := cut?_append "" piece after
  rwa [String.empty_append, String.utf8ByteSize_empty, Nat.zero_add] at cut

/-- The third character of this text takes two bytes, and no cut goes through it. -/
example : cut? "größe" 0 4 = some "grö" ∧ cut? "größe" 0 3 = none := by
  decide

theorem byteIndex?_of_not_mem {mark : Char} {text : String} (absent : mark ∉ text.toList) :
    byteIndex? mark text = none :=
  if_neg absent

theorem byteIndex?_append
    {mark : Char} {piece after : String} (absent : mark ∉ piece.toList)
    (found : after.toList.head? = some mark) :
    byteIndex? mark (piece ++ after) = some piece.utf8ByteSize := by
  obtain ⟨further, chars⟩ := List.head?_eq_some_iff.mp found
  have present : mark ∈ (piece ++ after).toList := by simp [chars]
  rw [byteIndex?, if_pos present, String.toList_append, chars,
    takeWhile_append_of_atBoundary absent (atBoundary_cons mark further), utf8Length_toList]

/-! ## The reader -/

/-- A reader of a path text: the text, the byte at which the next segment starts, and whether the
reading has ended. -/
structure Reader where
  text : String
  offset : Nat
  finished : Bool
  deriving DecidableEq, Repr

namespace Reader

def start (text : String) : Reader :=
  ⟨text, 0, false⟩

/-- Reads an element step that starts at byte `start`, where `rest` is the text from there on: the
step and the number of bytes that its segment takes. -/
def elementAt? (start : Nat) (rest : String) : Option (Except Malformation (Step × Nat)) := do
  let opening := utf8Length Step.elementOpening
  let body ← cut? rest opening rest.utf8ByteSize
  match byteIndex? Step.elementClosing body with
  | none => return .error ⟨start + opening, .unclosedIndex⟩
  | some closing =>
      let digits ← cut? body 0 closing
      if digits.toList.isEmpty || !digits.toList.all Char.isDigit then
        return .error ⟨start + opening, .invalidIndex⟩
      else if Step.indexLimit ≤ decimalValue digits.toList then
        return .error ⟨start + opening, .indexOverflow⟩
      else if start = 0 then
        return .error ⟨start, .leadingIndex⟩
      else
        return .ok (.element (decimalValue digits.toList), opening + closing + 1)

def memberAt? (start : Nat) (rest : String) : Option (Except Malformation (Step × Nat)) :=
  let size := (byteIndex? Step.separator rest).getD rest.utf8ByteSize
  if size = 0 then
    return .error ⟨start, .emptySegment⟩
  else do
    let name ← cut? rest 0 size
    return .ok (.member name, size)

def segmentAt? (text : String) (start : Nat) : Option (Except Malformation (Step × Nat)) := do
  let rest ← cut? text start text.utf8ByteSize
  if rest.toList.isEmpty then
    return .error ⟨start, if start = 0 then .emptyPath else .emptySegment⟩
  else if (dropOpening? Step.elementOpening rest.toList).isSome then
    elementAt? start rest
  else
    memberAt? start rest

/-- Asks the reader once: the answer, which is nothing after the end, and the reader afterwards. It
fails when a cut fails. -/
def next? (reader : Reader) : Option (Option (Except Malformation Step) × Reader) :=
  if reader.finished then
    return (none, reader)
  else do
    match ← segmentAt? reader.text reader.offset with
    | .error malformation => return (some (.error malformation), { reader with finished := true })
    | .ok (step, size) =>
        let stop := reader.offset + size
        let after ← cut? reader.text stop reader.text.utf8ByteSize
        match after.toList with
        | [] => return (some (.ok step), { reader with offset := stop, finished := true })
        | mark :: _ =>
            if mark = Step.separator then
              return (some (.ok step), { reader with offset := stop + mark.utf8Size })
            else
              return (some (.error ⟨stop, .trailingCharacters⟩),
                { reader with offset := stop, finished := true })

def after? : Nat → Reader → Option Reader
  | 0, reader => some reader
  | calls + 1, reader => do
      let (_, moved) ← reader.next?
      moved.after? calls

end Reader

/-! ## One segment -/

def Segment.measured (start : Nat) (found : Segment) : Step × Nat :=
  (found.step, found.stop - start)

theorem utf8Length_eq_zero_iff {chars : List Char} :
    utf8Length chars = 0 ↔ chars = [] := by
  cases chars with
  | nil => simp [utf8Length]
  | cons char chars =>
      have positive := char.utf8Size_pos
      simp only [utf8Length, reduceCtorEq, iff_false]
      omega

/-- The characters in front of the first mark, or all of them, take this many bytes. -/
theorem getD_byteIndex? (mark : Char) (text : String) :
    (byteIndex? mark text).getD text.utf8ByteSize =
      utf8Length (text.toList.takeWhile (· != mark)) := by
  by_cases present : mark ∈ text.toList
  · rw [byteIndex?, if_pos present, Option.getD_some]
  · have nothing : AtBoundary mark [] := by simp [AtBoundary]
    have taken := takeWhile_append_of_atBoundary present nothing
    rw [List.append_nil] at taken
    rw [byteIndex?_of_not_mem present, Option.getD_none, taken, utf8Length_toList]

theorem memberAt?_eq (start : Nat) (rest : String) :
    Reader.memberAt? start rest =
      some ((memberSegment start rest.toList).map (Segment.measured start)) := by
  have split : rest = String.ofList (rest.toList.takeWhile (· != Step.separator)) ++
      String.ofList (rest.toList.dropWhile (· != Step.separator)) := by
    rw [← String.ofList_append, List.takeWhile_append_dropWhile, String.ofList_toList]
  have named : cut? rest 0 (utf8Length (rest.toList.takeWhile (· != Step.separator))) =
      some (String.ofList (rest.toList.takeWhile (· != Step.separator))) := by
    have front := cut?_front (String.ofList (rest.toList.takeWhile (· != Step.separator)))
      (String.ofList (rest.toList.dropWhile (· != Step.separator)))
    rwa [← split, ← utf8Length_toList, String.toList_ofList] at front
  simp only [Reader.memberAt?, memberSegment, getD_byteIndex?, utf8Length_eq_zero_iff,
    List.isEmpty_iff, named]
  split_ifs with unnamed
  · rfl
  · simp [Segment.measured, Except.map]

theorem elementAt?_eq (start : Nat) (body : String) :
    Reader.elementAt? start ("Array.data[" ++ body) =
      some ((elementSegment start body.toList).map (Segment.measured start)) := by
  have behind : cut? ("Array.data[" ++ body) 11 ("Array.data[" ++ body).utf8ByteSize = some body :=
    cut?_behind "Array.data[" body
  rcases unclosed_or_closed body.toList with unclosed | ⟨digits, after, closed, unmarked⟩
  · rw [elementSegment_unclosed unclosed]
    simp only [Reader.elementAt?, utf8Length_elementOpening, behind, Option.bind_eq_bind,
      Option.bind_some, byteIndex?_of_not_mem unclosed]
    rfl
  · obtain rfl : body = digits ++ String.ofList (Step.elementClosing :: after) := by
      apply String.toList_inj.mp
      rw [closed, String.toList_append, String.toList_ofList]
    have closing : byteIndex? Step.elementClosing
        (digits ++ String.ofList (Step.elementClosing :: after)) = some digits.utf8ByteSize :=
      byteIndex?_append unmarked (by simp)
    have front := cut?_front digits (String.ofList (Step.elementClosing :: after))
    have limit : Step.indexLimit = 2 ^ 64 := rfl
    have size : utf8Length ("Array.data[" ++ digits ++ "]").toList =
        11 + digits.utf8ByteSize + 1 := by
      rw [utf8Length_toList, String.utf8ByteSize_append, String.utf8ByteSize_append]
      rfl
    rw [closed, elementSegment_closed unmarked]
    simp only [Reader.elementAt?, behind, Option.bind_eq_bind, Option.bind_some, closing, front,
      utf8Length_elementOpening, isNumeral_iff, decimalValue_toList, limit, Bool.not_eq_false, size]
    split_ifs with invalid large first
    · rfl
    · rfl
    · rw [first]
      rfl
    · simp [Segment.measured, Except.map]

/-- In front of the text that is left, a reader reads the segment that a cursor reads. -/
theorem segmentAt?_append (before rest : String) :
    Reader.segmentAt? (before ++ rest) before.utf8ByteSize =
      some ((segment before.utf8ByteSize rest.toList).map
        (Segment.measured before.utf8ByteSize)) := by
  simp only [Reader.segmentAt?, cut?_behind, Option.bind_eq_bind, Option.bind_some, segment]
  by_cases ended : rest.toList.isEmpty
  · simp only [if_pos ended]
    rfl
  · simp only [if_neg ended]
    cases opened : dropOpening? Step.elementOpening rest.toList with
    | some body =>
        obtain rfl : rest = "Array.data[" ++ String.ofList body := by
          apply String.toList_inj.mp
          rw [dropOpening?_eq_some_iff.mp opened, toList_opened, String.toList_ofList]
        simp only [Option.isSome_some, if_true, elementAt?_eq, String.toList_ofList]
    | none => simp only [Option.isSome_none, Bool.false_eq_true, if_false, memberAt?_eq]

/-! ## One call -/

/-- The reader stands between two characters of the text, and a cursor at that place still yields
these items. -/
inductive Reader.Owes (text : String) : Reader → List (Except Malformation Step) → Prop where
  | between {before rest : String} (finished : Bool) (split : text = before ++ rest) :
      Owes text ⟨text, before.utf8ByteSize, finished⟩
        (Cursor.items ⟨before.utf8ByteSize, rest.toList, finished⟩)

section Owes

variable {text : String} {reader : Reader} {items : List (Except Malformation Step)}

theorem Reader.owes_start (text : String) :
    (Reader.start text).Owes text (Path.items text) :=
  .between false String.empty_append.symm

theorem Reader.Owes.isValid (owes : reader.Owes text items) :
    String.Pos.Raw.IsValid text ⟨reader.offset⟩ := by
  cases owes with
  | between finished split =>
      rw [split]
      exact isValid_append _ _

theorem Reader.owes_finished {before rest : String} (split : text = before ++ rest) :
    Reader.Owes text ⟨text, before.utf8ByteSize, true⟩ [] := by
  have owes := Owes.between true split
  rwa [Cursor.items_of_finished rfl] at owes

/-- Behind a separator a reader owes what a cursor yields there. -/
theorem Reader.owes_separated
    {before after : String} {further : List Char}
    (behind : after.toList = Step.separator :: further) :
    Reader.Owes (before ++ after)
      ⟨before ++ after, before.utf8ByteSize + Step.separator.utf8Size, false⟩
      (Cursor.items ⟨before.utf8ByteSize + 1, further, false⟩) := by
  have split : before ++ after = before ++ "." ++ String.ofList further := by
    apply String.toList_inj.mp
    simp [behind, Step.separator]
  have size : (before ++ ".").utf8ByteSize = before.utf8ByteSize + 1 :=
    String.utf8ByteSize_append
  have owes := Owes.between false split
  rwa [size, String.toList_ofList] at owes

theorem Spells.utf8ByteSize_pos {piece : String} {step : Step} (spells : Spells piece step) :
    0 < piece.utf8ByteSize := by
  cases spells with
  | name nonempty undivided =>
      exact Nat.pos_of_ne_zero (String.utf8ByteSize_eq_zero_iff.not.mpr nonempty)
  | position nonempty decimal small =>
      rw [String.utf8ByteSize_append, String.utf8ByteSize_append]
      exact Nat.lt_add_left _ (by decide)

/-- A segment that a cursor reads is a piece of the text, and it ends where the text goes on. -/
theorem exists_piece_of_segment
    {before rest : String} {found : Segment}
    (read : segment before.utf8ByteSize rest.toList = .ok found) :
    ∃ piece after step, rest = piece ++ after ∧
      found = ⟨step, (before ++ piece).utf8ByteSize, after.toList⟩ ∧
      before.utf8ByteSize < (before ++ piece).utf8ByteSize := by
  obtain ⟨piece, cuts⟩ := cuts_of_segment read
  have stop : found.stop = (before ++ piece).utf8ByteSize := by
    rw [cuts.stop_eq, utf8Length_toList, String.utf8ByteSize_append]
  refine ⟨piece, String.ofList found.after, found.step, ?_, ?_, ?_⟩
  · apply String.toList_inj.mp
    rw [cuts.joined, String.toList_append, String.toList_ofList]
  · rw [← stop, String.toList_ofList]
  · rw [String.utf8ByteSize_append]
    exact Nat.lt_add_of_pos_right cuts.spells.utf8ByteSize_pos

/-- Behind the segment that it has read, a call looks at the next character. -/
theorem Reader.next?_of_segmentAt?
    {before piece after : String} {step : Step}
    (read : segmentAt? (before ++ piece ++ after) before.utf8ByteSize =
      some (.ok (step, piece.utf8ByteSize))) :
    Reader.next? ⟨before ++ piece ++ after, before.utf8ByteSize, false⟩ =
      match after.toList with
      | [] =>
          some (some (.ok step), ⟨before ++ piece ++ after, (before ++ piece).utf8ByteSize, true⟩)
      | mark :: _ =>
          if mark = Step.separator then
            some (some (.ok step), ⟨before ++ piece ++ after,
              (before ++ piece).utf8ByteSize + mark.utf8Size, false⟩)
          else
            some (some (.error ⟨(before ++ piece).utf8ByteSize, .trailingCharacters⟩),
              ⟨before ++ piece ++ after, (before ++ piece).utf8ByteSize, true⟩) := by
  have behind := cut?_behind (before ++ piece) after
  have size : (before ++ piece).utf8ByteSize = before.utf8ByteSize + piece.utf8ByteSize :=
    String.utf8ByteSize_append
  rw [size] at behind ⊢
  simp only [Reader.next?, Bool.false_eq_true, if_false, Option.bind_eq_bind, read,
    Option.bind_some, behind]
  rfl

/-- A call makes no cut that fails. It answers with the next item that the reader owes, which moves
the reader on when it is a step. -/
theorem Reader.Owes.next? (owes : reader.Owes text items) :
    ∃ moved, reader.next? = some (items.head?, moved) ∧ moved.Owes text items.tail ∧
      ∀ step, items.head? = some (.ok step) → reader.offset < moved.offset := by
  cases owes with
  | @between before rest finished split =>
      cases finished with
      | true =>
          rw [Cursor.items_of_finished rfl]
          exact ⟨_, rfl, owes_finished split, by simp⟩
      | false =>
          subst split
          have read := segmentAt?_append before rest
          rw [Cursor.items_segment]
          cases segmented : segment before.utf8ByteSize rest.toList with
          | error malformation =>
              rw [segmented] at read
              have answered : Reader.next? ⟨before ++ rest, before.utf8ByteSize, false⟩ =
                  some (some (.error malformation),
                    ⟨before ++ rest, before.utf8ByteSize, true⟩) := by
                simp only [Reader.next?, read]
                rfl
              exact ⟨_, answered, owes_finished rfl, by simp⟩
          | ok found =>
              obtain ⟨piece, after, step, rfl, rfl, progress⟩ := exists_piece_of_segment segmented
              simp only [segmented, Except.map, Segment.measured, String.utf8ByteSize_append,
                Nat.add_sub_cancel_left, ← String.append_assoc] at read
              rw [← String.append_assoc, next?_of_segmentAt? read]
              cases behind : after.toList with
              | nil => exact ⟨_, rfl, owes_finished rfl, fun _ _ => progress⟩
              | cons mark further =>
                  by_cases separated : mark = Step.separator
                  · subst separated
                    simp only [if_true]
                    exact ⟨_, rfl, owes_separated behind,
                      fun _ _ => Nat.lt_add_right Step.separator.utf8Size progress⟩
                  · simp only [if_neg separated]
                    exact ⟨_, rfl, owes_finished rfl, by simp⟩

/-- The name in front of the separator takes two bytes. -/
example :
    Reader.next? ⟨"ä.Array.data[7]", 3, false⟩ =
      some (some (.ok (.element 7)), ⟨"ä.Array.data[7]", 16, true⟩) := by
  decide +kernel

/-- However often a reader is called, no cut fails, and it owes what it has not yet answered. -/
theorem Reader.Owes.after? (owes : reader.Owes text items) (calls : Nat) :
    ∃ moved, reader.after? calls = some moved ∧ moved.Owes text (items.drop calls) := by
  induction calls generalizing reader items with
  | zero => exact ⟨reader, rfl, owes⟩
  | succ calls inductionHypothesis =>
      obtain ⟨moved, called, owesRest, _⟩ := owes.next?
      obtain ⟨last, ran, owesLast⟩ := inductionHypothesis owesRest
      refine ⟨last, ?_, ?_⟩
      · simpa only [Reader.after?, called, Option.bind_eq_bind, Option.bind_some] using ran
      · rwa [List.drop_tail] at owesLast

end Owes

/-! ## How much is yielded -/

/-- What a text yields is either one item, or a step in front of a separator and then what the text
behind the separator yields. -/
theorem Cursor.items_induction
    {motive : List Char → List (Except Malformation Step) → Prop}
    (single : ∀ rest item, motive rest [item])
    (separated : ∀ piece step further items, motive further items →
      motive (piece ++ Step.separator :: further) (.ok step :: items))
    (start : Nat) (rest : List Char) :
    motive rest (Cursor.items ⟨start, rest, false⟩) := by
  induction sized : rest.length using Nat.strong_induction_on generalizing start rest with
  | _ size inductionHypothesis =>
      rw [Cursor.items_segment]
      cases read : segment start rest with
      | error malformation => exact single _ _
      | ok found =>
          obtain ⟨piece, cuts⟩ := cuts_of_segment read
          obtain ⟨step, stop, after⟩ := found
          cases after with
          | nil => exact single _ _
          | cons mark further =>
              by_cases marked : mark = Step.separator
              · subst marked
                have joined : rest = piece.toList ++ Step.separator :: further := cuts.joined
                have shorter : further.length < size := by
                  rw [← sized, joined, List.length_append, List.length_cons]
                  omega
                simp only [if_true, joined]
                exact separated _ _ _ _ (inductionHypothesis _ shorter _ _ rfl)
              · simp only [if_neg marked]
                exact single _ _

/-- Every item but the last one takes a separator of the text. -/
theorem Cursor.length_items_le (start : Nat) (rest : List Char) :
    (Cursor.items ⟨start, rest, false⟩).length ≤ rest.count Step.separator + 1 := by
  refine items_induction (motive := fun rest items =>
    items.length ≤ rest.count Step.separator + 1) ?single ?separated start rest
  case single =>
    intro rest item
    exact Nat.le_add_left 1 _
  case separated =>
    intro piece step further items bounded
    rw [List.count_append, List.count_cons_self, List.length_cons]
    omega

/-- A fault is the last item. -/
theorem Cursor.length_items_of_error (start : Nat) (rest : List Char) :
    ∀ position malformation,
      (Cursor.items ⟨start, rest, false⟩)[position]? = some (.error malformation) →
        (Cursor.items ⟨start, rest, false⟩).length = position + 1 := by
  refine items_induction (motive := fun _ items => ∀ position malformation,
    items[position]? = some (.error malformation) → items.length = position + 1)
    ?single ?separated start rest
  case single =>
    intro rest item position malformation found
    cases position with
    | zero => rfl
    | succ position => cases found
  case separated =>
    intro piece step further items inductionHypothesis position malformation found
    cases position with
    | zero => cases found
    | succ position =>
        rw [List.getElem?_cons_succ] at found
        rw [List.length_cons, inductionHypothesis position malformation found]

/-! ## The steps of a path -/

/-- The loop that collects steps: it calls the reader until that has ended or answers with a fault.
It has no result when it goes on for ever or a call fails. -/
inductive Reader.Collects : Reader → Except Malformation (List Step) → Prop where
  | ended {reader moved : Reader} (answered : reader.next? = some (none, moved)) :
      Collects reader (.ok [])
  | refused {reader moved : Reader} {malformation : Malformation}
      (answered : reader.next? = some (some (.error malformation), moved)) :
      Collects reader (.error malformation)
  | step {reader moved : Reader} {step : Step} {result : Except Malformation (List Step)}
      (answered : reader.next? = some (some (.ok step), moved))
      (collected : moved.Collects result) :
      Collects reader (result.map (step :: ·))

/-- The loop has one result, which is that of the items that the reader owes. -/
theorem Reader.Owes.collects_iff
    {text : String} {reader : Reader} {items : List (Except Malformation Step)}
    (owes : reader.Owes text items) (result : Except Malformation (List Step)) :
    reader.Collects result ↔ result = collect items := by
  induction items generalizing reader result with
  | nil =>
      obtain ⟨moved, called, _⟩ := owes.next?
      constructor
      · intro collects
        cases collects with
        | ended answered => rfl
        | refused answered => simp [called] at answered
        | step answered collected => simp [called] at answered
      · rintro rfl
        exact .ended called
  | cons item items inductionHypothesis =>
      obtain ⟨moved, called, owesRest, _⟩ := owes.next?
      cases item with
      | error malformation =>
          constructor
          · intro collects
            cases collects with
            | ended answered => simp [called] at answered
            | refused answered =>
                rw [called] at answered
                cases answered
                rfl
            | step answered collected => simp [called] at answered
          · rintro rfl
            exact .refused called
      | ok step =>
          constructor
          · intro collects
            cases collects with
            | ended answered => simp [called] at answered
            | refused answered => simp [called] at answered
            | step answered collected =>
                rw [called] at answered
                cases answered
                rw [(inductionHypothesis owesRest _).mp collected, collect]
          · rintro rfl
            exact .step called ((inductionHypothesis owesRest _).mpr rfl)

/-- The last step and the steps in front of it. It fails when there is no step: then the place of
the last one would be in front of the first place. -/
def splitLast? (steps : List Step) : Option (Step × List Step) :=
  if steps.length < 1 then
    none
  else
    let (init, last) := steps.splitAt (steps.length - 1)
    last[0]?.map fun step => (step, init)

theorem splitLast?_steps (path : Path) :
    splitLast? path.steps = some (path.last, path.init) := by
  have split (init : List Step) (last : Step) :
      splitLast? (init ++ [last]) = some (last, init) := by
    simp [splitLast?]
  rw [← split, path.init_append_last]

/-! ## Whole texts -/

/-- How a text is read by bytes. -/
structure ReadsByBytes (text : String) : Prop where
  /-- No call makes a cut that fails, however many there are. The answer is an item of the text, and
  nothing for ever after the last item. A step moves the reader on. -/
  calls : ∀ count, ∃ reader moved,
    (Reader.start text).after? count = some reader ∧
    reader.next? = some ((items text)[count]?, moved) ∧
    reader.offset ≤ text.utf8ByteSize ∧ String.Pos.Raw.IsValid text ⟨reader.offset⟩ ∧
    ∀ step, (items text)[count]? = some (.ok step) → reader.offset < moved.offset
  someItem : 1 ≤ (items text).length
  fewItems : (items text).length ≤ text.toList.count '.' + 1
  faultLast : ∀ count malformation, (items text)[count]? = some (.error malformation) →
    (items text).length = count + 1
  /-- The loop over the calls ends, with the steps of the path or with the fault. -/
  collected : ∀ result, (Reader.start text).Collects result ↔
    result = (parse text).map Path.steps
  /-- The steps that the loop ends with are those of a path, and there is a last one to take off. -/
  splits : ∀ steps, (Reader.start text).Collects (.ok steps) →
    ∃ path, parse text = .ok path ∧ path.steps = steps ∧ 1 ≤ path.length ∧
      splitLast? steps = some (path.last, path.init)

theorem collects_iff_parse (text : String) (result : Except Malformation (List Step)) :
    (Reader.start text).Collects result ↔ result = (parse text).map Path.steps := by
  rw [steps_parse]
  exact (Reader.owes_start text).collects_iff result

/-- Every text is read without a cut that fails, in finitely many calls, and with progress. -/
theorem readsByBytes (text : String) : ReadsByBytes text where
  calls := by
    intro count
    obtain ⟨reader, called, owes⟩ := (Reader.owes_start text).after? count
    obtain ⟨moved, answered, _, progress⟩ := owes.next?
    rw [List.head?_drop] at answered progress
    exact ⟨reader, moved, called, answered, owes.isValid.le_utf8ByteSize, owes.isValid, progress⟩
  someItem := List.length_pos_iff.mpr (items_ne_nil text)
  fewItems := Cursor.length_items_le 0 text.toList
  faultLast := Cursor.length_items_of_error 0 text.toList
  collected := collects_iff_parse text
  splits := by
    intro steps collects
    have read := (collects_iff_parse text _).mp collects
    cases parsed : parse text with
    | error malformation =>
        rw [parsed] at read
        cases read
    | ok path =>
        rw [parsed] at read
        cases read
        exact ⟨path, rfl, rfl, List.length_pos_iff.mpr path.steps_ne_nil, splitLast?_steps path⟩

end Path

end ObjectGraph
