import ConsoleBus.Text.Json
import Mathlib.Data.List.Basic
import Mathlib.Data.List.TakeWhile

/-!
How the parts of a JSON text are written, and that each reader takes them. A string has many
spellings (`Spells`), an integer has one (`Decimal`), and blanks may stand around every token
(`Blank`). What stands between two brackets is a list of items, each written in a way of its own
(`Items`). The reader of a number is the only one that has to look at what comes after
(`Stops`).
-/

namespace ConsoleBus.Json

/-! ### Blanks -/

/-- Nothing but blanks. -/
def Blank (ws : Bytes) : Prop := ∀ b ∈ ws, isBlank b = true

theorem blank_nil : Blank [] := nofun

theorem skipBlanks_of_blank {ws : Bytes} (blank : Blank ws) : skipBlanks ws = [] :=
  List.dropWhile_eq_nil_iff.2 blank

theorem skipBlanks_cons {c : UInt8} (solid : isBlank c = false) (s : Bytes) :
    skipBlanks (c :: s) = c :: s :=
  List.dropWhile_cons_of_neg (by simp [solid])

theorem skipBlanks_append {ws : Bytes} (blank : Blank ws) {c : UInt8} (solid : isBlank c = false)
    (s : Bytes) : skipBlanks (ws ++ c :: s) = c :: s := by
  rw [skipBlanks, List.dropWhile_append_of_pos blank]
  exact skipBlanks_cons solid s

/-! ### Strings -/

/-- A text between quotes spells these bytes. -/
inductive Spells : Bytes → Bytes → Prop
  | nil : Spells [] []
  | plain {c : UInt8} {name text : Bytes} (printed : 0x20 ≤ c) (unquoted : c ≠ ascii '"')
      (unescaped : c ≠ ascii '\\') (rest : Spells name text) : Spells (c :: name) (c :: text)
  | short {c b : UInt8} {name text : Bytes} (letter : shortEscape? c = some b)
      (rest : Spells name text) : Spells (b :: name) (ascii '\\' :: c :: text)
  /-- A character by its number. -/
  | unit {a b c d : UInt8} {unit : Nat} {name text : Bytes} (digits : hexUnit? a b c d = some unit)
      (single : isLeading unit = false ∧ isTrailing unit = false) (rest : Spells name text) :
      Spells (String.utf8EncodeChar (Char.ofNat unit) ++ name)
        (ascii '\\' :: ascii 'u' :: a :: b :: c :: d :: text)
  /-- A character by the two numbers of a surrogate pair. -/
  | pair {a b c d a' b' c' d' : UInt8} {unit second : Nat} {name text : Bytes}
      (digits : hexUnit? a b c d = some unit) (digits' : hexUnit? a' b' c' d' = some second)
      (leading : isLeading unit = true) (trailing : isTrailing second = true)
      (rest : Spells name text) :
      Spells
        (String.utf8EncodeChar
          (Char.ofNat ((unit - 0xd800) * 0x400 + (second - 0xdc00) + 0x10000)) ++ name)
        (ascii '\\' :: ascii 'u' :: a :: b :: c :: d ::
          ascii '\\' :: ascii 'u' :: a' :: b' :: c' :: d' :: text)

/-- A byte that stands for itself in a string. -/
def isPlain (c : UInt8) : Bool := 0x20 ≤ c && c ≠ ascii '"' && c ≠ ascii '\\'

/-- A text without quotes, escapes and control characters spells itself. -/
theorem spells_self {name : Bytes} (plain : ∀ c ∈ name, isPlain c = true) : Spells name name := by
  induction name with
  | nil => exact .nil
  | cons c name ih =>
    obtain ⟨this, rest⟩ := List.forall_mem_cons.1 plain
    simp only [isPlain, Bool.and_eq_true, decide_eq_true_eq] at this
    exact .plain this.1.1 this.1.2 this.2 (ih rest)

theorem leading_ne_trailing {unit : Nat} (leading : isLeading unit = true) :
    isTrailing unit = false := by
  simp only [isLeading, isTrailing, Bool.and_eq_true, Bool.and_eq_false_iff, decide_eq_true_eq,
    decide_eq_false_iff_not] at *
  omega

theorem escape_short {c b : UInt8} (letter : shortEscape? c = some b) (s : Bytes) :
    escape (c :: s) = .ok ([b], s) := by
  have other : c ≠ ascii 'u' := by
    rintro rfl
    have none : shortEscape? (ascii 'u') = none := by decide
    rw [none] at letter
    cases letter
  simp only [escape, if_neg other, letter]

theorem escape_unit {a b c d : UInt8} {unit : Nat} (digits : hexUnit? a b c d = some unit)
    (single : isLeading unit = false ∧ isTrailing unit = false) (s : Bytes) :
    escape (ascii 'u' :: a :: b :: c :: d :: s) =
      .ok (String.utf8EncodeChar (Char.ofNat unit), s) := by
  simp [escape, digits, single]

theorem escape_pair {a b c d a' b' c' d' : UInt8} {unit second : Nat}
    (digits : hexUnit? a b c d = some unit) (digits' : hexUnit? a' b' c' d' = some second)
    (leading : isLeading unit = true) (trailing : isTrailing second = true) (s : Bytes) :
    escape (ascii 'u' :: a :: b :: c :: d :: ascii '\\' :: ascii 'u' :: a' :: b' :: c' :: d' :: s) =
      .ok (String.utf8EncodeChar
        (Char.ofNat ((unit - 0xd800) * 0x400 + (second - 0xdc00) + 0x10000)), s) := by
  simp [escape, trailingUnit, digits, digits', leading, trailing, leading_ne_trailing leading]

/-- The rounds last, because every one of them takes a byte. -/
theorem stringRounds_of_spells {name text : Bytes} (spells : Spells name text) {rounds : Bytes}
    (enough : text.length < rounds.length) (s : Bytes) :
    stringRounds rounds (text ++ ascii '"' :: s) = .ok (name, s) := by
  induction spells generalizing rounds with
  | nil =>
    obtain ⟨round, rounds, rfl⟩ := List.exists_cons_of_length_pos enough
    simp [stringRounds]
  | @plain c name text printed unquoted unescaped _ ih =>
    obtain ⟨round, rounds, rfl⟩ := List.exists_cons_of_length_pos (Nat.zero_lt_of_lt enough)
    have more := ih (Nat.lt_of_succ_lt_succ enough)
    have loud : ¬ c < 0x20 := UInt8.not_lt.2 printed
    simp only [List.cons_append, stringRounds, if_neg unquoted, if_neg unescaped, if_neg loud, more]
    rfl
  | @short c b name text letter _ ih =>
    obtain ⟨round, rounds, rfl⟩ := List.exists_cons_of_length_pos (Nat.zero_lt_of_lt enough)
    have more := @ih rounds (by simp only [List.length_cons] at enough; omega)
    have sign : ascii '\\' ≠ ascii '"' := by decide
    simp only [List.cons_append, stringRounds, if_neg sign, if_true, escape_short letter, more]
    rfl
  | unit digits single _ ih =>
    obtain ⟨round, rounds, rfl⟩ := List.exists_cons_of_length_pos (Nat.zero_lt_of_lt enough)
    have more := @ih rounds (by simp only [List.length_cons] at enough; omega)
    have sign : ascii '\\' ≠ ascii '"' := by decide
    simp only [List.cons_append, stringRounds, if_neg sign, if_true, escape_unit digits single, more]
    rfl
  | pair digits digits' leading trailing _ ih =>
    obtain ⟨round, rounds, rfl⟩ := List.exists_cons_of_length_pos (Nat.zero_lt_of_lt enough)
    have more := @ih rounds (by simp only [List.length_cons] at enough; omega)
    have sign : ascii '\\' ≠ ascii '"' := by decide
    simp only [List.cons_append, stringRounds, if_neg sign, if_true,
      escape_pair digits digits' leading trailing, more]
    rfl

/-- A string is read as the bytes that it spells. -/
theorem string_of_spells {name text : Bytes} (spells : Spells name text) (s : Bytes) :
    string (text ++ ascii '"' :: s) = .ok (name, s) :=
  stringRounds_of_spells spells (by simp) s

/-! ### Numbers and truth values -/

/-- The number that digits write after those of `n`. -/
def shift (n : Nat) (d : UInt8) : Nat := n * 10 + digitValue d

/-- The digits of a number, without a leading zero. -/
structure Decimal (n : Nat) (text : Bytes) : Prop where
  digits : ∀ b ∈ text, isDigit b = true
  nonempty : text ≠ []
  plain : text.head? = some (ascii '0') → text = [ascii '0']
  value : text.foldl shift 0 = n

/-- A text that does not go on with a number that ended before it. -/
def Stops (s : Bytes) : Prop :=
  ∀ c ∈ s.head?, isDigit c = false ∧ c ≠ ascii '.' ∧ c ≠ ascii 'e' ∧ c ≠ ascii 'E'

theorem le_foldl_shift (n : Nat) (ds : Bytes) : n ≤ ds.foldl shift n := by
  induction ds generalizing n with
  | nil => exact Nat.le_refl n
  | cons d ds ih =>
    have more : n ≤ shift n d := by
      unfold shift
      omega
    exact Nat.le_trans more (ih _)

/-- Digits are taken up as long as the number fits. -/
theorem extend_of_fits (n : Nat) {ds : Bytes} (fits : ds.foldl shift n ≤ maxExact) :
    extend n ds = (ds.foldl shift n, ds.length) := by
  induction ds generalizing n with
  | nil => rfl
  | cons d ds ih =>
    have small : ¬ maxExact < n * 10 + digitValue d :=
      Nat.not_lt.2 (Nat.le_trans (le_foldl_shift (shift n d) ds) fits)
    have more : extend (n * 10 + digitValue d) ds = (ds.foldl shift (shift n d), ds.length) :=
      ih (shift n d) fits
    simp only [extend, if_neg small, more, List.foldl_cons, List.length_cons]

theorem afterInteger_of_stops {s : Bytes} (stops : Stops s) (n : Nat) :
    afterInteger true n s = .ok (some n, s) := by
  cases s with
  | nil => rfl
  | cons c s =>
    obtain ⟨-, point, e, e'⟩ := stops c rfl
    simp [afterInteger, opensExponent, point, e, e']

theorem span_digits {ds : Bytes} (digits : ∀ b ∈ ds, isDigit b = true) {s : Bytes} (stops : Stops s) :
    (ds ++ s).takeWhile isDigit = ds ∧ (ds ++ s).dropWhile isDigit = s := by
  have none : s.takeWhile isDigit = [] ∧ s.dropWhile isDigit = s := by
    cases s with
    | nil => exact ⟨rfl, rfl⟩
    | cons c s =>
      have other := (stops c rfl).1
      exact ⟨List.takeWhile_cons_of_neg (by simp [other]),
        List.dropWhile_cons_of_neg (by simp [other])⟩
  rw [List.takeWhile_append_of_pos digits, List.dropWhile_append_of_pos digits, none.1, none.2,
    List.append_nil]
  exact ⟨rfl, rfl⟩

/-- An integer of 64 bits is read exactly, and so is what comes after it. -/
theorem number_of_decimal {n : Nat} {text s : Bytes} (written : Decimal n text)
    (fits : n ≤ maxExact) (stops : Stops s) : number true (text ++ s) = .ok (some n, s) := by
  obtain ⟨digits, nonempty, plain, value⟩ := written
  cases text with
  | nil => exact absurd rfl nonempty
  | cons c ds =>
    obtain ⟨first, others⟩ := List.forall_mem_cons.1 digits
    have number' : ¬ (!isDigit c) = true := by simp [first]
    rw [List.cons_append, number, if_neg number']
    by_cases zero : c = ascii '0'
    · subst zero
      obtain rfl : ds = [] := by simpa using plain rfl
      obtain rfl : n = 0 := value.symm.trans (by decide)
      have alone : ¬ s.head?.any isDigit = true := by
        cases s with
        | nil => simp
        | cons c s => simp [(stops c rfl).1]
      rw [if_pos rfl, List.nil_append, if_neg alone]
      exact afterInteger_of_stops stops 0
    · have start : shift 0 c = digitValue c := Nat.zero_mul 10 ▸ Nat.zero_add _
      rw [List.foldl_cons, start] at value
      obtain ⟨taken, left⟩ := span_digits others stops
      rw [if_neg zero]
      simp only [taken, left, extend_of_fits (digitValue c) (value ▸ fits), value, if_pos]
      exact afterInteger_of_stops stops n

theorem digit_ne {c : UInt8} (digit : isDigit c = true) :
    isBlank c = false ∧ c ≠ ascii '-' ∧ c ≠ ascii ']' := by
  refine ⟨Bool.eq_false_iff.2 fun blank => ?_, ?_, ?_⟩
  · simp only [isBlank, Bool.or_eq_true, decide_eq_true_eq] at blank
    rcases blank with ((rfl | rfl) | rfl) | rfl <;> revert digit <;> decide
  · rintro rfl
    revert digit
    decide
  · rintro rfl
    revert digit
    decide

theorem natural_of_decimal {ws text s : Bytes} {n max : Nat} (blank : Blank ws)
    (written : Decimal n text) (within : n ≤ max) (fits : max ≤ maxExact) (stops : Stops s) :
    natural max (ws ++ (text ++ s)) = .ok (n, s) := by
  have read := number_of_decimal written (Nat.le_trans within fits) stops
  obtain ⟨digits, nonempty, -, -⟩ := written
  obtain ⟨c, ds, rfl⟩ := List.exists_cons_of_ne_nil nonempty
  have first : isDigit c = true := digits c List.mem_cons_self
  obtain ⟨solid, unsigned, -⟩ := digit_ne first
  rw [List.cons_append] at read ⊢
  simp only [natural, skipBlanks_append blank solid, if_neg unsigned, if_pos first, read,
    if_pos within]

/-- Every natural number can be written. -/
theorem exists_decimal (n : Nat) : ∃ text, Decimal n text := by
  induction n using Nat.strongRecOn with
  | ind n ih =>
    have digit (d : Nat) (small : d < 10) :
        isDigit (UInt8.ofNat (0x30 + d)) = true ∧ digitValue (UInt8.ofNat (0x30 + d)) = d := by
      decide +revert
    obtain ⟨last, value⟩ := digit (n % 10) (Nat.mod_lt n (by decide))
    by_cases small : n < 10
    · rw [Nat.mod_eq_of_lt small] at last value
      refine ⟨[UInt8.ofNat (0x30 + n)], by simpa using last, by simp, fun zero => ?_, ?_⟩
      · exact congrArg (fun c => [c]) (Option.some.inj zero)
      · rw [List.foldl_cons, List.foldl_nil, shift, value, Nat.zero_mul, Nat.zero_add]
    · obtain ⟨text, written⟩ := ih (n / 10) (by omega)
      refine ⟨text ++ [UInt8.ofNat (0x30 + n % 10)], ?_, by simp, fun zero => ?_, ?_⟩
      · intro b hb
        rcases List.mem_append.1 hb with old | new
        · exact written.digits b old
        · exact List.mem_singleton.1 new ▸ last
      · -- what starts with a zero is the text of zero, and there are tens
        rw [List.head?_append_of_ne_nil _ written.nonempty] at zero
        have tens := written.value
        rw [written.plain zero] at tens
        have none : n / 10 = 0 := tens.symm.trans (by decide)
        omega
      · rw [List.foldl_append, written.value, List.foldl_cons, List.foldl_nil, shift, value]
        omega

/-- How a truth value is written. -/
def truth (b : Bool) : Bytes := ((if b then "true" else "false").toList).map ascii

theorem word_append (w s : Bytes) : word w (w ++ s) = .ok s := by
  induction w with
  | nil => rfl
  | cons c w ih => simp only [List.cons_append, word, if_true, ih]

theorem boolean_of_truth {ws : Bytes} (blank : Blank ws) (b : Bool) (s : Bytes) :
    boolean (ws ++ (truth b ++ s)) = .ok (b, s) := by
  cases b with
  | false =>
    have text : truth false ++ s = ascii 'f' :: ("alse".toList.map ascii ++ s) := rfl
    have other : ascii 'f' ≠ ascii 't' := by decide
    simp only [boolean, text, skipBlanks_append blank (by decide : isBlank (ascii 'f') = false),
      if_neg other, if_true, word_append]
    rfl
  | true =>
    have text : truth true ++ s = ascii 't' :: ("rue".toList.map ascii ++ s) := rfl
    simp only [boolean, text, skipBlanks_append blank (by decide : isBlank (ascii 't') = false),
      if_true, word_append]
    rfl

/-! ### Lists of items -/

/-- What stands before an item: blanks, and a comma unless it is the first. -/
def Separates : Bool → Bytes → Prop
  | true, sep => Blank sep
  | false, sep => ∃ ws ws', Blank ws ∧ Blank ws' ∧ sep = ws ++ ascii ',' :: ws'

/-- A text of items, each written in one of the ways that are allowed for it, up to and with the
bracket at their end. -/
inductive Items (close : UInt8) : Bool → List (Bytes → Prop) → Bytes → Prop
  | stop {first : Bool} {ws : Bytes} (blank : Blank ws) : Items close first [] (ws ++ [close])
  | item {first : Bool} {sep : Bytes} {Item : Bytes → Prop} {items : List (Bytes → Prop)}
      {text rest : Bytes} (separates : Separates first sep) (written : Item text)
      (more : Items close false items rest) : Items close first (Item :: items) (sep ++ (text ++ rest))

namespace Items

variable {close : UInt8} {first : Bool} {items : List (Bytes → Prop)} {text : Bytes}

/-- All items but the first take a comma, and the end takes a bracket. -/
theorem length_le (h : Items close first items text) :
    items.length + (if first then 0 else 1) ≤ text.length := by
  induction h with
  | @stop first ws _ =>
    rw [List.length_append, List.length_singleton, List.length_nil]
    split <;> omega
  | @item first sep _ items text rest separates _ _ ih =>
    simp only [Bool.false_eq_true, if_false] at ih
    simp only [List.length_append, List.length_cons]
    cases first with
    | true => simp only [if_true]; omega
    | false =>
      obtain ⟨ws, ws', -, -, rfl⟩ := separates
      simp only [Bool.false_eq_true, if_false, List.length_append, List.length_cons]
      omega

/-- A text of items is one of items for which more is allowed. -/
theorem imp {items' : List (Bytes → Prop)} (h : Items close first items text)
    (more : List.Forall₂ (fun Item Item' => ∀ t, Item t → Item' t) items items') :
    Items close first items' text := by
  induction h generalizing items' with
  | stop blank =>
    cases more
    exact .stop blank
  | item separates written _ ih =>
    cases more with
    | cons here rest => exact .item separates (here _ written) (ih rest)

end Items

/-- Items that can be written make a text. -/
theorem exists_items (close : UInt8) (first : Bool) (items : List (Bytes → Prop))
    (written : ∀ Item ∈ items, ∃ text, Item text) : ∃ text, Items close first items text := by
  induction items generalizing first with
  | nil => exact ⟨_, .stop blank_nil⟩
  | cons Item items ih =>
    obtain ⟨⟨text, this⟩, others⟩ := List.forall_mem_cons.1 written
    obtain ⟨rest, more⟩ := ih false others
    cases first with
    | true => exact ⟨_, .item blank_nil this more⟩
    | false => exact ⟨_, .item ⟨[], [], blank_nil, blank_nil, rfl⟩ this more⟩

/-- Blanks and the token after them end a number, if the token can do so. -/
theorem stops_append {ws : Bytes} (blank : Blank ws) {c : UInt8} (token : Stops [c]) (s : Bytes) :
    Stops (ws ++ c :: s) := by
  cases ws with
  | nil => exact token
  | cons b ws =>
    rintro _ ⟨⟩
    have first := (List.forall_mem_cons.1 blank).1
    simp only [isBlank, Bool.or_eq_true, decide_eq_true_eq] at first
    rcases first with ((rfl | rfl) | rfl) | rfl <;> decide

/-- A number among items is ended by what follows it. -/
theorem Items.stops {close : UInt8} {items : List (Bytes → Prop)} {text : Bytes}
    (h : Items close false items text) (bracket : Stops [close]) (s : Bytes) : Stops (text ++ s) := by
  cases h with
  | stop blank =>
    rw [List.append_assoc]
    exact stops_append blank bracket s
  | item separates written more =>
    obtain ⟨ws, ws', blank, -, rfl⟩ := separates
    simp only [List.append_assoc, List.cons_append]
    exact stops_append blank (by rintro _ ⟨⟩; decide) _

theorem nextItem_of_separates {first : Bool} {sep : Bytes} (separates : Separates first sep)
    {c : UInt8} (solid : isBlank c = false) (open' : c ≠ ascii ']') (s : Bytes) :
    nextItem first (sep ++ c :: s) = .ok (some (c :: s)) := by
  cases first with
  | true => simp only [nextItem, skipBlanks_append separates solid, if_neg open', if_true]
  | false =>
    obtain ⟨ws, ws', blank, blank', rfl⟩ := separates
    have comma : ascii ',' ≠ ascii ']' := by decide
    simp only [nextItem, List.append_assoc, List.cons_append,
      skipBlanks_append blank (by decide : isBlank (ascii ',') = false), if_neg comma, if_true,
      Bool.false_eq_true, if_false, skipBlanks_append blank' solid, if_neg open']

theorem nextItem_of_blank {ws : Bytes} (blank : Blank ws) (first : Bool) (s : Bytes) :
    nextItem first (ws ++ ascii ']' :: s) = .ok none := by
  simp only [nextItem, skipBlanks_append blank (by decide : isBlank (ascii ']') = false), if_true]

theorem closeArray_of_blank {ws : Bytes} (blank : Blank ws) (s : Bytes) :
    closeArray (ws ++ ascii ']' :: s) = .ok s := by
  simp only [closeArray, skipBlanks_append blank (by decide : isBlank (ascii ']') = false), if_true]

theorem nextName_of_separates {first : Bool} {sep : Bytes} (separates : Separates first sep)
    (s : Bytes) : nextName first (sep ++ ascii '"' :: s) = .ok (some s) := by
  have quote : ascii '"' ≠ ascii '\x7d' := by decide
  have solid : isBlank (ascii '"') = false := by decide
  cases first with
  | true => simp only [nextName, skipBlanks_append separates solid, if_neg quote, if_true]
  | false =>
    obtain ⟨ws, ws', blank, blank', rfl⟩ := separates
    have comma : ascii ',' ≠ ascii '\x7d' := by decide
    simp only [nextName, List.append_assoc, List.cons_append,
      skipBlanks_append blank (by decide : isBlank (ascii ',') = false), if_neg comma, if_true,
      Bool.false_eq_true, if_false, skipBlanks_append blank' solid]

theorem nextName_of_blank {ws : Bytes} (blank : Blank ws) (first : Bool) (s : Bytes) :
    nextName first (ws ++ ascii '\x7d' :: s) = .ok none := by
  simp only [nextName, skipBlanks_append blank (by decide : isBlank (ascii '\x7d') = false), if_true]

theorem closeObject_of_blank {ws : Bytes} (blank : Blank ws) (s : Bytes) :
    closeObject (ws ++ ascii '\x7d' :: s) = .ok s := by
  simp only [closeObject, skipBlanks_append blank (by decide : isBlank (ascii '\x7d') = false),
    if_true]

theorem colon_of_blank {ws : Bytes} (blank : Blank ws) (s : Bytes) :
    colon (ws ++ ascii ':' :: s) = .ok s := by
  simp only [colon, skipBlanks_append blank (by decide : isBlank (ascii ':') = false), if_true]

theorem finish_of_blank {ws : Bytes} (blank : Blank ws) : finish ws = .ok () := by
  rw [finish, if_pos (skipBlanks_of_blank blank)]

end ConsoleBus.Json
