import ObjectGraph.Proofs.Grammar

/-!
# Writing paths and reading them back

The written form of a path is read back as the same path exactly when its names can be told from
the separators and from the openings of element steps. Every path that was read is of this kind.
Reading forgets one thing only: the zeros that a position may have been written with in front of its
digits.
-/

namespace ObjectGraph

namespace Path

/-! ## Decimal digits -/

theorem decimalValue_toDigits (index : Nat) :
    decimalValue (Nat.toDigits 10 index) = index :=
  Nat.ofDigitChars_ten_toDigits

theorem digitChar_of_isDigit {digit : Char} (decimal : digit.isDigit) :
    Nat.digitChar (digit.toNat - '0'.toNat) = digit ∧ digit.toNat - '0'.toNat < 10 := by
  have range : 48 ≤ digit.toNat ∧ digit.toNat ≤ 57 := by
    simp only [Char.isDigit, Bool.and_eq_true, decide_eq_true_eq, ge_iff_le,
      UInt32.le_iff_toNat_le] at decimal
    exact decimal
  have zero : '0'.toNat = 48 := rfl
  have small : digit.toNat - '0'.toNat < 10 := by omega
  refine ⟨Char.toNat_inj.mp ?_, small⟩
  rw [Nat.toNat_digitChar_of_lt_ten small]
  omega

/-- Digits behind a positive number prolong its digits. -/
theorem toDigits_append
    {value : Nat} {digits : List Char} (positive : 0 < value)
    (decimal : ∀ digit ∈ digits, digit.isDigit) :
    Nat.toDigits 10 value ++ digits = Nat.toDigits 10 (Nat.ofDigitChars 10 digits value) := by
  induction digits generalizing value with
  | nil => simp
  | cons digit digits inductionHypothesis =>
      obtain ⟨char, small⟩ := digitChar_of_isDigit (decimal digit List.mem_cons_self)
      have single : Nat.toDigits 10 (digit.toNat - '0'.toNat) = [digit] := by
        rw [Nat.toDigits_of_lt_base small, char]
      have prolonged := Nat.toDigits_append_toDigits (by decide) positive small
      have stillPositive : 0 < 10 * value + (digit.toNat - '0'.toNat) := by omega
      calc
        Nat.toDigits 10 value ++ digit :: digits =
            (Nat.toDigits 10 value ++ Nat.toDigits 10 (digit.toNat - '0'.toNat)) ++ digits := by
          rw [single, List.append_assoc, List.singleton_append]
        _ = Nat.toDigits 10 (10 * value + (digit.toNat - '0'.toNat)) ++ digits := by
          rw [prolonged]
        _ = Nat.toDigits 10 (Nat.ofDigitChars 10 (digit :: digits) value) := by
          rw [inductionHypothesis stillPositive fun later present =>
            decimal later (List.mem_cons_of_mem _ present), Nat.ofDigitChars_cons]

theorem eq_zero_of_head?_toDigits
    {index : Nat} (leading : (Nat.toDigits 10 index).head? = some '0') :
    index = 0 := by
  induction index using Nat.strong_induction_on with
  | h index inductionHypothesis =>
      rw [Nat.toDigits_eq_if (by decide)] at leading
      split at leading
      · next small =>
          have char : Nat.digitChar index = '0' := by simpa using leading
          have value := Nat.toNat_digitChar_of_lt_ten small
          rw [char] at value
          have zero : '0'.toNat = 48 := rfl
          omega
      · next large =>
          rw [List.head?_append_of_ne_nil _ Nat.toDigits_ne_nil] at leading
          have quotient := inductionHypothesis (index / 10) (by omega) leading
          omega

/-- Digits are those of the number that they denote unless a zero stands in front of more digits. -/
theorem toDigits_decimalValue_iff
    {digits : List Char} (nonempty : digits ≠ []) (decimal : ∀ digit ∈ digits, digit.isDigit) :
    Nat.toDigits 10 (decimalValue digits) = digits ↔ ∀ rest, digits = '0' :: rest → rest = [] := by
  constructor
  · rintro written rest rfl
    have zero : decimalValue ('0' :: rest) = 0 :=
      eq_zero_of_head?_toDigits (by rw [written, List.head?_cons])
    rw [zero, Nat.toDigits_zero] at written
    exact (List.cons.inj written).2.symm
  · intro unpadded
    cases digits with
    | nil => exact absurd rfl nonempty
    | cons digit digits =>
        obtain ⟨char, small⟩ := digitChar_of_isDigit (decimal digit List.mem_cons_self)
        by_cases zero : digit = '0'
        · subst zero
          rw [unpadded digits rfl]
          rfl
        · have positive : 0 < digit.toNat - '0'.toNat := by
            by_contra none
            have least : digit.toNat - '0'.toNat = 0 := by omega
            rw [least] at char
            exact zero char.symm
          have prolonged := toDigits_append positive fun later present =>
            decimal later (List.mem_cons_of_mem _ present)
          rw [Nat.toDigits_of_lt_base small, char] at prolonged
          have value : decimalValue (digit :: digits) =
              Nat.ofDigitChars 10 digits (digit.toNat - '0'.toNat) := by
            simp [decimalValue, Nat.ofDigitChars_eq_foldl]
          rw [value, ← prolonged, List.singleton_append]

/-! ## Legible steps -/

/-- Positions that a path text can denote. -/
def InRange (steps : List Step) : Prop :=
  ∀ index, Step.element index ∈ steps → index < 2 ^ 64

/-- Steps that can be told from their written form. -/
structure Legible (steps : List Step) : Prop where
  startsWithName : ∃ name, steps.head? = some (.member name)
  nonempty : ∀ name, Step.member name ∈ steps → name ≠ ""
  undivided : ∀ name, Step.member name ∈ steps → '.' ∉ name.toList
  noOpening : steps.IsChain fun first second => ¬ FormOpening first second

theorem intercalate_text (steps : List Step) :
    ".".intercalate (steps.map Step.text) = String.ofList (joinSteps steps) := by
  induction steps with
  | nil => rfl
  | cons step steps inductionHypothesis =>
      cases steps with
      | nil => simp [joinSteps, Step.text]
      | cons next steps =>
          rw [List.map_cons, List.map_cons, String.intercalate_cons_cons, ← List.map_cons,
            inductionHypothesis, ← String.toList_inj]
          simp [joinSteps, Step.separator]

theorem text_element (index : Nat) :
    Step.text (.element index) =
      "Array.data[" ++ String.ofList (Nat.toDigits 10 index) ++ "]" := by
  rw [← String.toList_inj, toList_position, Step.toList_text, String.toList_ofList, Step.chars]

/-- The written forms of legible steps spell them. -/
theorem Legible.spelled
    {steps : List Step} (legible : Legible steps) (inRange : InRange steps) :
    List.Forall₂ Spells (steps.map Step.text) steps := by
  rw [List.forall₂_map_left_iff, List.forall₂_same]
  intro step present
  cases step with
  | member name =>
      have written : Step.text (.member name) = name := by simp [Step.text, Step.chars]
      rw [written]
      exact .name (legible.nonempty name present) (legible.undivided name present)
  | element index =>
      have denoted : numeral (String.ofList (Nat.toDigits 10 index)) = index := by
        rw [← decimalValue_toList, String.toList_ofList, decimalValue_toDigits]
      have spells : Spells ("Array.data[" ++ String.ofList (Nat.toDigits 10 index) ++ "]")
          (.element (numeral (String.ofList (Nat.toDigits 10 index)))) := by
        refine .position ?_ ?_ ?_
        · simp [Nat.toDigits_ne_nil]
        · intro digit written
          rw [String.toList_ofList] at written
          exact Nat.isDigit_of_mem_toDigits (by decide) (by decide) written
        · rw [denoted]
          exact inRange index present
      rwa [denoted, ← text_element] at spells

/-- Steps that are spelled by some segments have names that can be told from separators, and their
positions are in range. -/
theorem plain_of_spelled
    {segments : List String} {steps : List Step} (spelled : List.Forall₂ Spells segments steps) :
    InRange steps ∧ ∀ name, Step.member name ∈ steps → name ≠ "" ∧ '.' ∉ name.toList := by
  induction spelled with
  | nil => simp [InRange]
  | @cons segment step segments steps spells spelled inductionHypothesis =>
      obtain ⟨inRange, plain⟩ := inductionHypothesis
      constructor
      · intro index present
        rcases List.mem_cons.mp present with here | later
        · cases spells with
          | name nonempty undivided => cases here
          | position nonempty decimal small =>
              cases here
              exact small
        · exact inRange index later
      · intro name present
        rcases List.mem_cons.mp present with here | later
        · cases spells with
          | name nonempty undivided =>
              cases here
              exact ⟨nonempty, undivided⟩
          | position nonempty decimal small => cases here
        · exact plain name later

theorem Decomposition.legible
    {text : String} {segments : List String} {steps : List Step}
    (decomposed : Decomposition text segments steps) :
    Legible steps ∧ InRange steps := by
  obtain ⟨inRange, plain⟩ := plain_of_spelled decomposed.spelled
  exact ⟨⟨decomposed.startsWithName, fun name present => (plain name present).1,
    fun name present => (plain name present).2, decomposed.noOpening⟩, inRange⟩

/-- The written form of legible steps decomposes into the written forms of the steps. -/
theorem Legible.decomposition
    {path : Path} (legible : Legible path.steps) (inRange : InRange path.steps) :
    Decomposition path.text (path.steps.map Step.text) path.steps where
  joined := (intercalate_text path.steps).symm
  spelled := legible.spelled inRange
  startsWithName := legible.startsWithName
  noOpening := legible.noOpening

/-! ## Redundant zeros -/

/-- A segment in which a position is written with a zero in front of more digits. -/
def Padded (segment : String) : Prop :=
  ∃ digits, digits ≠ "" ∧ segment = "Array.data[0" ++ digits ++ "]"

/-- A path text with a padded position. -/
def HasPadding (text : String) : Prop :=
  ∃ segments steps, Decomposition text segments steps ∧ ∃ segment ∈ segments, Padded segment

/-- A step has one spelling without redundant zeros, which is its written form. -/
theorem Spells.eq_text_iff
    {segment : String} {step : Step} (spells : Spells segment step) :
    segment = step.text ↔ ¬ Padded segment := by
  cases spells with
  | name nonempty undivided =>
      have written : Step.text (.member segment) = segment := by simp [Step.text, Step.chars]
      refine iff_of_true written.symm ?_
      rintro ⟨digits, _, rfl⟩
      simp at undivided
  | @position digits nonempty decimal small =>
      have someDigits : digits.toList ≠ [] := by simpa using nonempty
      have unpadded := toDigits_decimalValue_iff someDigits decimal
      rw [decimalValue_toList] at unpadded
      have sameDigits : "Array.data[" ++ digits ++ "]" = Step.text (.element (numeral digits)) ↔
          Nat.toDigits 10 (numeral digits) = digits.toList := by
        rw [text_element, ← String.toList_inj, toList_position, toList_position,
          String.toList_ofList]
        simp only [List.append_cancel_right_eq, List.append_cancel_left_eq]
        exact eq_comm
      rw [sameDigits, unpadded]
      constructor
      · rintro single ⟨rest, someMore, padded⟩
        have sameChars := congrArg String.toList padded
        rw [toList_position] at sameChars
        have closed : digits.toList ++ [']'] = ('0' :: rest.toList) ++ [']'] := by
          simpa [Step.elementOpening, Step.elementClosing] using sameChars
        have digitsEq := List.append_cancel_right closed
        have noMore := single rest.toList digitsEq
        exact someMore (by simpa using noMore)
      · intro single rest digitsEq
        by_contra someMore
        refine single ⟨String.ofList rest, by simpa using someMore, ?_⟩
        rw [← String.toList_inj, toList_position, digitsEq]
        simp [Step.elementOpening, Step.elementClosing]

theorem segments_eq_map_text_iff
    {segments : List String} {steps : List Step} (spelled : List.Forall₂ Spells segments steps) :
    segments = steps.map Step.text ↔ ∀ segment ∈ segments, ¬ Padded segment := by
  induction spelled with
  | nil => simp
  | cons spells spelled inductionHypothesis =>
      rw [List.map_cons, List.cons.injEq, spells.eq_text_iff, inductionHypothesis,
        List.forall_mem_cons]

/-! ## Reading back -/

theorem parse_eq_ok_iff (text : String) (path : Path) :
    parse text = .ok path ↔ ∃ segments, Decomposition text segments path.steps := by
  rw [← collect_items_eq_ok_iff, ← steps_parse]
  cases parse text with
  | error malformation => simp [Except.map]
  | ok found =>
      obtain ⟨found, foundNonempty⟩ := found
      obtain ⟨steps, nonempty⟩ := path
      simp [Except.map]

theorem parse_text_iff {path : Path} (inRange : InRange path.steps) :
    parse path.text = .ok path ↔ Legible path.steps := by
  rw [parse_eq_ok_iff]
  constructor
  · rintro ⟨segments, decomposed⟩
    exact decomposed.legible.1
  · intro legible
    exact ⟨_, legible.decomposition inRange⟩

/-- A text is the written form of the path that is read from it unless it pads a position. -/
theorem text_eq_iff
    {text : String} {path : Path} (parsed : parse text = .ok path) :
    path.text = text ↔ ¬ HasPadding text := by
  obtain ⟨segments, decomposed⟩ := (parse_eq_ok_iff text path).mp parsed
  obtain ⟨legible, inRange⟩ := decomposed.legible
  have written := legible.decomposition inRange
  have unpadded := segments_eq_map_text_iff decomposed.spelled
  constructor
  · rintro same ⟨others, steps, otherDecomposed, segment, present, padded⟩
    rw [same] at written
    obtain rfl : path.steps = steps := by
      have read := (collect_items_eq_ok_iff text steps).mpr ⟨others, otherDecomposed⟩
      rw [(collect_items_eq_ok_iff text path.steps).mpr ⟨segments, decomposed⟩] at read
      exact Except.ok.inj read
    have sameSegments : others = path.steps.map Step.text :=
      segments_unique otherDecomposed.spelled written.spelled
        (otherDecomposed.joined.symm.trans written.joined)
    have none := (segments_eq_map_text_iff otherDecomposed.spelled).mp sameSegments
    exact none segment present padded
  · intro none
    have sameSegments := unpadded.mpr fun segment present padded =>
      none ⟨segments, path.steps, decomposed, segment, present, padded⟩
    rw [written.joined, decomposed.joined, sameSegments]

/-- Writing a path and reading it back gives the same path exactly for legible steps. What has been
read is legible, it has a written form of its own, and this form is the text that was read up to
redundant zeros. -/
theorem parse_text_roundTrip :
    (∀ path : Path, InRange path.steps →
      (parse path.text = .ok path ↔ Legible path.steps)) ∧
    ∀ (text : String) (path : Path), parse text = .ok path →
      InRange path.steps ∧ Legible path.steps ∧ parse path.text = .ok path ∧
        (∀ otherText other, parse otherText = .ok other → other.text = path.text → other = path) ∧
        (path.text = text ↔ ¬ HasPadding text) := by
  constructor
  · exact fun path inRange => parse_text_iff inRange
  · intro text path parsed
    obtain ⟨segments, decomposed⟩ := (parse_eq_ok_iff text path).mp parsed
    obtain ⟨legible, inRange⟩ := decomposed.legible
    have readBack := (parse_text_iff inRange).mpr legible
    refine ⟨inRange, legible, readBack, fun otherText other otherParsed sameText => ?_,
      text_eq_iff parsed⟩
    obtain ⟨otherSegments, otherDecomposed⟩ := (parse_eq_ok_iff otherText other).mp otherParsed
    obtain ⟨otherLegible, otherInRange⟩ := otherDecomposed.legible
    have otherReadBack := (parse_text_iff otherInRange).mpr otherLegible
    rw [sameText, readBack] at otherReadBack
    exact (Except.ok.inj otherReadBack).symm

/-- Two redundant zeros are gone when the path is written again. -/
theorem parse_text_roundTrip_zeros :
    let path : Path := ⟨[.member "items", .element 7, .member "name"], by simp⟩
    parse "items.Array.data[007].name" = .ok path ∧
      parse "items.Array.data[7].name" = .ok path ∧
      path.text = "items.Array.data[7].name" ∧ Legible path.steps ∧
      HasPadding "items.Array.data[007].name" ∧ ¬ HasPadding "items.Array.data[7].name" := by
  intro path
  have parsed : parse "items.Array.data[007].name" = .ok path := by decide +kernel
  have written : path.text = "items.Array.data[7].name" := by decide +kernel
  obtain ⟨_, legible, readBack, _, padding⟩ := parse_text_roundTrip.2 _ path parsed
  rw [written] at readBack padding
  have unpadded := (parse_text_roundTrip.2 _ path readBack).2.2.2.2.mp written
  have shorter : "items.Array.data[7].name" ≠ "items.Array.data[007].name" := by decide
  exact ⟨parsed, readBack, written, legible, by_contra fun none => shorter (padding.mpr none),
    unpadded⟩

end Path

end ObjectGraph
