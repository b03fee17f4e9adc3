import Mathlib.Algebra.Group.Nat.Defs
import Mathlib.Data.List.Basic
import Mathlib.Data.List.Infix
import Mathlib.Data.List.TakeWhile

/-!
# Fields of a line of text

Lines are written by one program as fields with a space between them and read
by another one, either field by field from a stream, which skips blanks and
stops a number at the first character that cannot be part of it, or by
splitting the line.  What was written is what is read, for fields without
blanks.
-/

namespace TextFields

/-- `isspace` in the C locale -/
def isBlank (char : Char) : Bool :=
  char == ' ' || (0x09 ≤ char.toNat && char.toNat ≤ 0x0d)

/-- No blank is in the text, and there is a character. -/
def IsWord (text : List Char) : Prop :=
  text ≠ [] ∧ ∀ char ∈ text, isBlank char = false

instance (text : List Char) : Decidable (IsWord text) :=
  decidable_of_iff
    ((!text.isEmpty && text.all fun char => !isBlank char) = true)
    (by simp [IsWord])

/-- The fields of a line with a space between them. -/
def unwords (fields : List (List Char)) : List Char :=
  [' '].intercalate fields

/-- `grep pattern` for a pattern without special characters. -/
def grep (pattern : List Char) (lines : List (List Char)) :
    List (List Char) :=
  lines.filter fun line => decide (pattern <:+: line)

/-- The digits of a number, as all programs write it. -/
abbrev decimal (value : Nat) : List Char :=
  Nat.toDigits 10 value

/-- A number with its sign. -/
def decimalInt : Int → List Char
  | .ofNat value => decimal value
  | .negSucc value => '-' :: decimal (value + 1)

/-- `stream >> text`: the next word, and what is left of the line. -/
def readWord (text : List Char) : Option (List Char × List Char) :=
  let word := (text.dropWhile isBlank).takeWhile (!isBlank ·)
  if word = [] then none
  else some (word, (text.dropWhile isBlank).drop word.length)

/-- A sign and what is behind it. -/
def readSign : List Char → Bool × List Char
  | [] => (false, [])
  | char :: rest =>
      if char = '-' then (true, rest)
      else if char = '+' then (false, rest)
      else (false, char :: rest)

/-- `stream >> number` for an unsigned number of 64 bits. -/
def readUInt64 (text : List Char) : Option (BitVec 64 × List Char) :=
  let signed := readSign (text.dropWhile isBlank)
  let digits := signed.2.takeWhile Char.isDigit
  let value := Nat.ofDigitChars 10 digits 0
  if digits = [] ∨ 2 ^ 64 ≤ value then none
  else
    some
      (if signed.1 then - BitVec.ofNat 64 value else BitVec.ofNat 64 value,
        signed.2.drop digits.length)

/--
How many characters belong to a floating-point number, where `mantissa`,
`point` and `exponent` tell what of it was read before: digits, one point
before the exponent, and one exponent; `start` tells that a sign may come.
-/
def floatLength (mantissa point exponent start : Bool) : List Char → Nat
  | [] => 0
  | char :: rest =>
      if char.isDigit then floatLength true point exponent false rest + 1
      else if start ∧ (char = '-' ∨ char = '+') then
        floatLength mantissa point exponent false rest + 1
      else if char = '.' ∧ ¬ point ∧ ¬ exponent then
        floatLength mantissa true exponent false rest + 1
      else if (char = 'e' ∨ char = 'E') ∧ mantissa ∧ ¬ exponent then
        floatLength mantissa point true true rest + 1
      else 0

/--
`stream >> number` for a floating-point number: `convert` gets the characters
that belong to it, and fails where they are none.
-/
def readFloat {Number : Type} (convert : List Char → Option Number)
    (text : List Char) : Option (Number × List Char) :=
  let unread := text.dropWhile isBlank
  let length := floatLength false false false true unread
  (convert (unread.take length)).map fun number =>
    (number, unread.drop length)

/-- A blank comes next, or nothing. -/
def EndsField (rest : List Char) : Prop :=
  ∀ char ∈ rest.head?, isBlank char = true

theorem endsField_nil : EndsField [] := by
  intro char member
  cases member

theorem endsField_space (rest : List Char) : EndsField (' ' :: rest) := by
  intro char member
  obtain rfl := Option.mem_some.mp member
  rfl

theorem unwords_cons_cons
    (field next : List Char) (fields : List (List Char)) :
    unwords (field :: next :: fields) =
      field ++ ' ' :: unwords (next :: fields) := by
  simp only [unwords, List.intercalate_cons_cons, List.append_assoc,
    List.singleton_append]

theorem unwords_singleton (field : List Char) : unwords [field] = field :=
  List.intercalate_singleton

section Patterns

variable {pattern : List Char}

/-- A pattern without a character is in a line only on one side of it. -/
theorem infix_append_cons_iff
    {sep : Char} (absent : sep ∉ pattern) (front back : List Char) :
    pattern <:+: front ++ sep :: back ↔
      pattern <:+: front ∨ pattern <:+: back := by
  rw [List.infix_append_iff]
  constructor
  · rintro (inFront | inBack | ⟨first, second, rfl, ofFront, ofBack⟩)
    · exact Or.inl inFront
    · rcases List.infix_cons_iff.mp inBack with atSep | inBack
      · cases pattern with
        | nil => exact Or.inl (List.nil_infix)
        | cons char pattern =>
            obtain ⟨rfl, _⟩ := List.cons_prefix_cons.mp atSep
            exact absurd List.mem_cons_self absent
      · exact Or.inr inBack
    · cases second with
      | nil =>
          rw [List.append_nil]
          exact Or.inl ofFront.isInfix
      | cons char second =>
          obtain ⟨rfl, _⟩ := List.cons_prefix_cons.mp ofBack
          exact absurd
            (List.mem_append_right first List.mem_cons_self) absent
  · rintro (inFront | inBack)
    · exact Or.inl inFront
    · exact Or.inr (Or.inl (List.infix_cons inBack))

/-- A pattern without blanks is in a line only inside of one field. -/
theorem infix_unwords_iff
    (isWord : IsWord pattern) (fields : List (List Char)) :
    pattern <:+: unwords fields ↔ ∃ field ∈ fields, pattern <:+: field := by
  have absent : ' ' ∉ pattern := by
    intro member
    have notBlank := isWord.2 _ member
    exact absurd notBlank (by decide)
  induction fields with
  | nil =>
      have notNil : ¬ pattern <:+: [] := by
        rw [List.infix_nil]
        exact isWord.1
      simp only [unwords, List.intercalate_nil, List.not_mem_nil, false_and,
        exists_false, notNil]
  | cons field fields inductionHypothesis =>
      cases fields with
      | nil =>
          simp only [unwords_singleton, List.mem_singleton, exists_eq_left]
      | cons next fields =>
          rw [unwords_cons_cons, infix_append_cons_iff absent]
          simp only [inductionHypothesis, List.exists_mem_cons_iff]

/-- A line lacks a pattern that all of its fields lack. -/
theorem not_infix_unwords
    (isWord : IsWord pattern) {fields : List (List Char)}
    (lacking : ∀ field ∈ fields, ¬ pattern <:+: field) :
    ¬ pattern <:+: unwords fields := by
  rw [infix_unwords_iff isWord]
  rintro ⟨field, member, inField⟩
  exact lacking field member inField

/-- A field lacks a pattern of which it lacks a character. -/
theorem not_infix_of_not_mem
    {char : Char} {field : List Char} (member : char ∈ pattern)
    (absent : char ∉ field) :
    ¬ pattern <:+: field := by
  intro inField
  exact absent (inField.subset member)

theorem grep_append (first second : List (List Char)) :
    grep pattern (first ++ second) =
      grep pattern first ++ grep pattern second :=
  List.filter_append first second

theorem grep_eq_self {lines : List (List Char)}
    (all : ∀ line ∈ lines, pattern <:+: line) :
    grep pattern lines = lines :=
  List.filter_eq_self.mpr fun line member => decide_eq_true (all line member)

theorem grep_eq_nil {lines : List (List Char)}
    (lacking : ∀ line ∈ lines, ¬ pattern <:+: line) :
    grep pattern lines = [] :=
  List.filter_eq_nil_iff.mpr fun line member inLine =>
    lacking line member (of_decide_eq_true inLine)

end Patterns

section Splitting

variable {test : Char → Bool} (isSep : test ' ' = true)

include isSep

/-- Splitting a line at its spaces splits its fields. -/
theorem splitOnP_unwords
    {field : List Char} {fields : List (List Char)} :
    (unwords (field :: fields)).splitOnP test =
      (field :: fields).flatMap (·.splitOnP test) := by
  induction fields generalizing field with
  | nil =>
      simp only [unwords_singleton, List.flatMap_singleton]
  | cons next fields inductionHypothesis =>
      rw [unwords_cons_cons, List.splitOnP_append_cons _ _ isSep,
        inductionHypothesis]
      simp only [List.flatMap_cons]

end Splitting

section Reading

theorem takeWhile_append_of_head {test : Char → Bool}
    {front rest : List Char}
    (all : ∀ char ∈ front, test char = true)
    (stops : ∀ char ∈ rest.head?, test char = false) :
    (front ++ rest).takeWhile test = front := by
  rw [List.takeWhile_append_of_pos all]
  cases rest with
  | nil => rw [List.takeWhile_nil, List.append_nil]
  | cons char rest =>
      rw [List.takeWhile_cons_of_neg, List.append_nil]
      rw [stops char rfl]
      exact Bool.false_ne_true

theorem dropWhile_blank_of_word {word : List Char} (isWord : IsWord word)
    (rest : List Char) :
    (word ++ rest).dropWhile isBlank = word ++ rest := by
  obtain ⟨char, word, rfl⟩ := List.exists_cons_of_ne_nil isWord.1
  rw [List.cons_append, List.dropWhile_cons_of_neg]
  rw [isWord.2 char List.mem_cons_self]
  exact Bool.false_ne_true

theorem dropWhile_blank_space (rest : List Char) :
    (' ' :: rest).dropWhile isBlank = rest.dropWhile isBlank :=
  List.dropWhile_cons_of_pos rfl

@[simp]
theorem readWord_space (rest : List Char) :
    readWord (' ' :: rest) = readWord rest := by
  simp only [readWord, dropWhile_blank_space]

@[simp]
theorem readUInt64_space (rest : List Char) :
    readUInt64 (' ' :: rest) = readUInt64 rest := by
  simp only [readUInt64, dropWhile_blank_space]

@[simp]
theorem readFloat_space {Number : Type}
    (convert : List Char → Option Number) (rest : List Char) :
    readFloat convert (' ' :: rest) = readFloat convert rest := by
  simp only [readFloat, dropWhile_blank_space]

/-- A word is read up to its end. -/
theorem readWord_word {word rest : List Char} (isWord : IsWord word)
    (ends : EndsField rest) :
    readWord (word ++ rest) = some (word, rest) := by
  have taken : (word ++ rest).takeWhile (!isBlank ·) = word :=
    takeWhile_append_of_head
      (fun char member => by rw [isWord.2 char member]; rfl)
      (fun char member => by rw [ends char member]; rfl)
  simp only [readWord, dropWhile_blank_of_word isWord, taken]
  rw [if_neg isWord.1, List.drop_left]

theorem isBlank_of_isDigit {char : Char} (isDigit : char.isDigit = true) :
    isBlank char = false := by
  simp only [Char.isDigit, Bool.and_eq_true, decide_eq_true_eq] at isDigit
  have low : 48 ≤ char.toNat := UInt32.le_iff_toNat_le.mp isDigit.1
  have notSpace : char ≠ ' ' := by
    rintro rfl
    exact absurd low (by decide)
  have high : ¬ char.toNat ≤ 0x0d := by omega
  simp only [isBlank, beq_eq_false_iff_ne.mpr notSpace, high, decide_false,
    Bool.and_false, Bool.or_false]

theorem not_isDigit_of_isBlank {char : Char} (blank : isBlank char = true) :
    char.isDigit = false := by
  by_contra isDigit
  rw [Bool.not_eq_false] at isDigit
  rw [isBlank_of_isDigit isDigit] at blank
  exact Bool.false_ne_true blank

/-- A number ends with its field. -/
theorem EndsField.not_isDigit {rest : List Char} (ends : EndsField rest) :
    ∀ char ∈ rest.head?, char.isDigit = false :=
  fun char member => not_isDigit_of_isBlank (ends char member)

theorem isDigit_of_mem_decimal {value : Nat} {char : Char}
    (member : char ∈ decimal value) : char.isDigit = true :=
  Nat.isDigit_of_mem_toDigits (by decide) (by decide) member

theorem isWord_decimal (value : Nat) : IsWord (decimal value) :=
  ⟨Nat.toDigits_ne_nil,
    fun _ member => isBlank_of_isDigit (isDigit_of_mem_decimal member)⟩

theorem isWord_cons {char : Char} {text : List Char}
    (notBlank : isBlank char = false)
    (rest : ∀ other ∈ text, isBlank other = false) :
    IsWord (char :: text) :=
  ⟨List.cons_ne_nil _ _, List.forall_mem_cons.mpr ⟨notBlank, rest⟩⟩

theorem isWord_decimalInt (value : Int) : IsWord (decimalInt value) := by
  cases value with
  | ofNat value => exact isWord_decimal value
  | negSucc value =>
      exact isWord_cons (by decide) (isWord_decimal (value + 1)).2

/-- In front of a digit there is no sign. -/
theorem readSign_of_isDigit {text : List Char}
    (digits : ∀ char ∈ text.head?, char.isDigit = true) :
    readSign text = (false, text) := by
  cases text with
  | nil => rfl
  | cons char rest =>
      have isDigit := digits char rfl
      have notMinus : char ≠ '-' := by
        rintro rfl
        exact absurd isDigit (by decide)
      have notPlus : char ≠ '+' := by
        rintro rfl
        exact absurd isDigit (by decide)
      simp only [readSign, notMinus, notPlus, if_false]

theorem head?_decimal_append {value : Nat} {rest : List Char} :
    ∀ char ∈ (decimal value ++ rest).head?, char.isDigit = true := by
  intro char member
  have notNil : decimal value ≠ [] := Nat.toDigits_ne_nil
  rw [List.head?_append_of_ne_nil _ notNil] at member
  exact isDigit_of_mem_decimal (List.mem_of_mem_head? member)

/-- A number is read up to the first character that is no digit. -/
theorem readUInt64_decimal {value : Nat} (small : value < 2 ^ 64)
    {rest : List Char} (stops : ∀ char ∈ rest.head?, char.isDigit = false) :
    readUInt64 (decimal value ++ rest) =
      some (BitVec.ofNat 64 value, rest) := by
  have taken : (decimal value ++ rest).takeWhile Char.isDigit =
      decimal value :=
    takeWhile_append_of_head (fun _ => isDigit_of_mem_decimal) stops
  have readable : ¬ (decimal value = [] ∨ 2 ^ 64 ≤ value) :=
    not_or.mpr ⟨Nat.toDigits_ne_nil, Nat.not_le.mpr small⟩
  simp only [readUInt64, dropWhile_blank_of_word (isWord_decimal value),
    readSign_of_isDigit head?_decimal_append, taken,
    Nat.ofDigitChars_ten_toDigits, if_neg readable, List.drop_left,
    Bool.false_eq_true, if_false]

/-- A number with its sign is read modulo `2 ^ 64`. -/
theorem readUInt64_decimalInt {value : Int}
    (small : value.natAbs < 2 ^ 64) {rest : List Char}
    (stops : ∀ char ∈ rest.head?, char.isDigit = false) :
    readUInt64 (decimalInt value ++ rest) =
      some (BitVec.ofInt 64 value, rest) := by
  cases value with
  | ofNat value =>
      rw [Int.ofNat_eq_natCast, BitVec.ofInt_natCast]
      exact readUInt64_decimal small stops
  | negSucc value =>
      have taken : (decimal (value + 1) ++ rest).takeWhile Char.isDigit =
          decimal (value + 1) :=
        takeWhile_append_of_head (fun _ => isDigit_of_mem_decimal) stops
      have readable : ¬ (decimal (value + 1) = [] ∨ 2 ^ 64 ≤ value + 1) :=
        not_or.mpr ⟨Nat.toDigits_ne_nil, Nat.not_le.mpr small⟩
      have notBlank :
          ('-' :: (decimal (value + 1) ++ rest)).dropWhile isBlank =
            '-' :: (decimal (value + 1) ++ rest) :=
        List.dropWhile_cons_of_neg (by decide)
      have negated : - BitVec.ofNat 64 (value + 1) =
          BitVec.ofInt 64 (Int.negSucc value) := by
        rw [Int.negSucc_eq, BitVec.ofInt_neg]
        exact congrArg Neg.neg (BitVec.ofInt_natCast 64 (value + 1)).symm
      simp only [readUInt64, decimalInt, List.cons_append, notBlank, readSign,
        if_true, taken, Nat.ofDigitChars_ten_toDigits, if_neg readable,
        List.drop_left, negated]

/-- The digits that a text starts with. -/
def leadingDigits (text : List Char) : List Char :=
  text.takeWhile Char.isDigit

/-- The number that they are. -/
def leadingNumber (text : List Char) : Nat :=
  Nat.ofDigitChars 10 (leadingDigits text) 0

/-- Of a text that starts with digits these are read, whatever follows. -/
theorem readUInt64_leading {text : List Char}
    (starts : leadingDigits text ≠ [])
    (small : leadingNumber text < 2 ^ 64) :
    readUInt64 text =
      some (BitVec.ofNat 64 (leadingNumber text),
        text.drop (leadingDigits text).length) := by
  have isDigit : ∀ char ∈ text.head?, char.isDigit = true := by
    intro char isHead
    cases text with
    | nil => cases isHead
    | cons first rest =>
        obtain rfl := Option.some.inj isHead
        by_contra notDigit
        exact starts (List.takeWhile_cons_of_neg notDigit)
  have notBlank : text.dropWhile isBlank = text := by
    cases text with
    | nil => rfl
    | cons first rest =>
        refine List.dropWhile_cons_of_neg ?_
        rw [isBlank_of_isDigit (isDigit first rfl)]
        exact Bool.false_ne_true
  unfold leadingDigits at starts
  unfold leadingNumber leadingDigits at small
  have readable := not_or.mpr ⟨starts, Nat.not_le.mpr small⟩
  simp only [readUInt64, notBlank, readSign_of_isDigit isDigit,
    if_neg readable, Bool.false_eq_true, if_false]
  rfl

end Reading

/-- A number in positional notation. -/
structure Numeral where
  whole : Nat
  fraction : List Char
  notEmpty : fraction ≠ []
  isFraction : fraction.all Char.isDigit = true

namespace Numeral

/-- How a program writes it. -/
def text (numeral : Numeral) : List Char :=
  decimal numeral.whole ++ '.' :: numeral.fraction

variable (numeral : Numeral)

theorem isDigit_of_mem_fraction {char : Char}
    (member : char ∈ numeral.fraction) : char.isDigit = true :=
  List.all_eq_true.mp numeral.isFraction char member

theorem isWord_text : IsWord numeral.text := by
  have blankless : ∀ char ∈ numeral.text, isBlank char = false := by
    intro char member
    rcases List.mem_append.mp member with inWhole | inFraction
    · exact (isWord_decimal numeral.whole).2 char inWhole
    · rcases List.mem_cons.mp inFraction with rfl | inFraction
      · decide
      · exact isBlank_of_isDigit (numeral.isDigit_of_mem_fraction inFraction)
  exact ⟨List.append_ne_nil_of_left_ne_nil Nat.toDigits_ne_nil _, blankless⟩

/-- Digits belong to a number, wherever they stand in it. -/
theorem floatLength_digits {digits : List Char}
    (notNil : digits ≠ [])
    (areDigits : ∀ char ∈ digits, char.isDigit = true)
    (mantissa point exponent start : Bool) (rest : List Char) :
    floatLength mantissa point exponent start (digits ++ rest) =
      digits.length + floatLength true point exponent false rest := by
  induction digits generalizing mantissa start with
  | nil =>
      exact absurd rfl notNil
  | cons char digits inductionHypothesis =>
      have isDigit := areDigits char List.mem_cons_self
      have tailDigits := fun other member =>
        areDigits other (List.mem_cons_of_mem char member)
      rw [List.cons_append, floatLength, if_pos isDigit, List.length_cons]
      cases digits with
      | nil =>
          rw [List.nil_append, List.length_nil]
          omega
      | cons next digits =>
          rw [inductionHypothesis (List.cons_ne_nil _ _) tailDigits]
          omega

/-- A number ends with the field. -/
theorem floatLength_of_endsField (mantissa point exponent start : Bool)
    {rest : List Char} (ends : EndsField rest) :
    floatLength mantissa point exponent start rest = 0 := by
  cases rest with
  | nil => rfl
  | cons char rest =>
      have blank := ends char rfl
      have differs : ∀ other, isBlank other = false → char ≠ other := by
        rintro other notBlank rfl
        rw [blank] at notBlank
        exact absurd notBlank (by decide)
      simp only [floatLength, not_isDigit_of_isBlank blank,
        differs '-' (by decide), differs '+' (by decide),
        differs '.' (by decide), differs 'e' (by decide),
        differs 'E' (by decide), Bool.false_eq_true, or_self, and_false,
        false_and, if_false]

theorem floatLength_text {rest : List Char} (ends : EndsField rest) :
    floatLength false false false true (numeral.text ++ rest) =
      numeral.text.length := by
  have atPoint :
      floatLength true false false false
          ('.' :: (numeral.fraction ++ rest)) =
        floatLength true true false false (numeral.fraction ++ rest) + 1 :=
    rfl
  rw [text, List.append_assoc, List.cons_append,
    floatLength_digits Nat.toDigits_ne_nil fun _ => isDigit_of_mem_decimal,
    atPoint,
    floatLength_digits numeral.notEmpty fun _ =>
      numeral.isDigit_of_mem_fraction,
    floatLength_of_endsField _ _ _ _ ends]
  simp only [List.length_append, List.length_cons]

/-- As a floating-point number the whole numeral is read. -/
theorem readFloat_text {Number : Type}
    (convert : List Char → Option Number)
    {rest : List Char} (ends : EndsField rest) :
    readFloat convert (numeral.text ++ rest) =
      (convert numeral.text).map fun number => (number, rest) := by
  simp only [readFloat, dropWhile_blank_of_word numeral.isWord_text,
    numeral.floatLength_text ends, List.take_left, List.drop_left]

end Numeral

end TextFields
