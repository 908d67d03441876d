import ConsoleBus.Proofs.JsonTexts
import ConsoleBus.Watch.Listing
import Mathlib.Data.List.Nodup
import Mathlib.Data.List.Perm.Subperm

/-!
Hook lists and the texts that render them. One list has many: each hook is an object or an array
(`HookText`), its fields stand in any order, flags that are off may be left out, and blanks may
stand anywhere between two tokens. What the fields of an object come to is worked out without any
text (`Draft.take`), and a deserializer that keeps to its rules (`ReadingRules`) does the same on
every text of them: all renderings are read as the list that they render, and one bad object among
them has the text refused (`ReadingRules.rendering`). The reader is such a deserializer
(`parse_readingRules`).
-/

namespace ConsoleBus.HookListing

open Json

/-! ### How hooks are written -/

namespace Field

/-- The bytes of the name. -/
def text (f : Field) : Bytes := f.name.toList.map ascii

/-- A text writes the value that a hook has in a field. -/
def Written (s : HookSpec) : Field → Bytes → Prop
  | key => Decimal s.key.toNat
  | start => Decimal s.start.toNat
  | length => Decimal s.length.toNat
  | dedupe => fun t => t = truth s.dedupe
  | coalesce => fun t => t = truth s.coalesce
  | silenced => fun t => t = truth s.silenced

/-- A field that a hook may leave out: a flag that is off. -/
def Omissible (s : HookSpec) : Field → Prop
  | key | start | length => False
  | dedupe => s.dedupe = false
  | coalesce => s.coalesce = false
  | silenced => s.silenced = false

theorem ofName?_text (f : Field) : ofName? f.text = some f := by
  cases f <;> decide

theorem ofName?_of_foreign {name : Bytes} (foreign : ∀ f : Field, name ≠ f.text) :
    ofName? name = none :=
  List.find?_eq_none.2 fun f _ same => foreign f (by simpa [text] using (beq_iff_eq.1 same).symm)

theorem mem_all (f : Field) : f ∈ all := by cases f <;> decide

end Field

/-- A name and a value, with a colon between them. -/
def Member (name value text : Bytes) : Prop :=
  ∃ spelled ws ws', Spells name spelled ∧ Blank ws ∧ Blank ws' ∧
    text = ascii '"' :: (spelled ++ ascii '"' :: (ws ++ ascii ':' :: (ws' ++ value)))

/-- A member of an object. -/
inductive Entry where
  /-- A field with the value that this hook has in it. -/
  | known (spec : HookSpec) (field : Field)
  /-- A member with a name that is no field's. -/
  | unknown (name : Bytes) (foreign : ∀ f : Field, name ≠ f.text)

/-- A text writes a member. Nothing is asked of the value of an unknown one. -/
def Entry.Written : Entry → Bytes → Prop
  | known s f, text => ∃ value, f.Written s value ∧ Member f.text value text
  | unknown name _, text => ∃ value, Member name value text

/-- A text writes an object with these members. -/
def ObjectOf (entries : List Entry) (text : Bytes) : Prop :=
  ∃ body, Items (ascii '\x7d') true (entries.map Entry.Written) body ∧
    text = ascii '\x7b' :: body

/-- A text writes an array of the values that a hook has in these fields. -/
def ArrayOf (s : HookSpec) (fields : List Field) (text : Bytes) : Prop :=
  ∃ body, Items (ascii ']') true (fields.map (Field.Written s)) body ∧ text = ascii '[' :: body

/-- These fields tell a hook: each stands once, and those that are left out may be. -/
structure Tells (s : HookSpec) (fields : List Field) : Prop where
  nodup : fields.Nodup
  omitted : ∀ f, f ∉ fields → f.Omissible s

/-- A text renders a hook, as an object with its fields in any order, or as an array of its values
in field order. -/
def HookText (s : HookSpec) (text : Bytes) : Prop :=
  (∃ fields, Tells s fields ∧ ObjectOf (fields.map (.known s)) text) ∨
    ∃ fields, fields <+: Field.all ∧ Tells s fields ∧ ArrayOf s fields text

/-- A text is an array of items, with blanks around it. -/
def ListOf (items : List (Bytes → Prop)) (text : Bytes) : Prop :=
  ∃ ws body ws', Blank ws ∧ Blank ws' ∧ Items (ascii ']') true items body ∧
    text = ws ++ ascii '[' :: (body ++ ws')

/-- A text renders a hook list. -/
def Renders (specs : List HookSpec) (text : Bytes) : Prop := ListOf (specs.map HookText) text

/-- A member that an object with these fields must not have as well: one with an unknown name, or a
second copy of a field, whatever its value. -/
def Entry.Surplus (fields : List Field) : Entry → Prop
  | known _ f => f ∈ fields
  | unknown .. => True

/-- The members of an object that renders a hook, with one too many at any place or without one of
those that are needed. -/
inductive Spoils (s : HookSpec) : List Entry → Prop
  | added {before after : List Field} {entry : Entry} (tells : Tells s (before ++ after))
      (surplus : entry.Surplus (before ++ after)) :
      Spoils s (before.map (.known s) ++ entry :: after.map (.known s))
  | dropped {fields : List Field} {f : Field} (tells : Tells s fields)
      (needed : f = .key ∨ f = .start ∨ f = .length) : Spoils s ((fields.erase f).map (.known s))

/-! ### What the members of an object come to -/

namespace Draft

variable {d d' : Draft} {s : HookSpec} {f g : Field}

/-- The draft with the value that a hook has in a field. -/
def put (d : Draft) (s : HookSpec) : Field → Draft
  | .key => { d with key := some s.key }
  | .start => { d with start := some s.start }
  | .length => { d with length := some s.length }
  | .dedupe => { d with dedupe := some s.dedupe }
  | .coalesce => { d with coalesce := some s.coalesce }
  | .silenced => { d with silenced := some s.silenced }

theorem has_put_self (d : Draft) (s : HookSpec) (f : Field) : (d.put s f).has f = true := by
  cases f <;> rfl

theorem has_put_of_has (has : d.has f = true) (s : HookSpec) (g : Field) :
    (d.put s g).has f = true := by
  by_cases same : f = g
  · exact same ▸ has_put_self d s f
  · cases f <;> cases g <;> first | exact has | exact absurd rfl same

/-- The draft with one more member, unless that is refused. -/
def take (d : Draft) : Entry → Option Draft
  | .known s f => if d.has f then none else some (d.put s f)
  | .unknown .. => none

/-- The draft of a hook in which these fields have been read. -/
def part (s : HookSpec) (fields : List Field) : Draft where
  key := if .key ∈ fields then some s.key else none
  start := if .start ∈ fields then some s.start else none
  length := if .length ∈ fields then some s.length else none
  dedupe := if .dedupe ∈ fields then some s.dedupe else none
  coalesce := if .coalesce ∈ fields then some s.coalesce else none
  silenced := if .silenced ∈ fields then some s.silenced else none

theorem part_nil (s : HookSpec) : part s [] = {} := by simp [part]

theorem has_part (s : HookSpec) (fields : List Field) (f : Field) :
    (part s fields).has f = decide (f ∈ fields) := by
  cases f <;> simp only [has, part] <;> split <;> simp [*]

theorem put_part (s : HookSpec) (fields : List Field) (f : Field) :
    (part s fields).put s f = part s (fields ++ [f]) := by
  cases f <;> simp [put, part]

theorem foldl_put_part (s : HookSpec) (read fields : List Field) :
    fields.foldl (fun d f => d.put s f) (part s read) = part s (read ++ fields) := by
  induction fields generalizing read with
  | nil => rw [List.append_nil, List.foldl_nil]
  | cons f fields ih => rw [List.foldl_cons, put_part, ih, List.append_assoc, List.singleton_append]

/-- Fields that are all different are taken one after the other. -/
theorem take_fields (s : HookSpec) {read fields : List Field} (nodup : (read ++ fields).Nodup) :
    (fields.map (Entry.known s)).foldlM take (part s read) = some (part s (read ++ fields)) := by
  induction fields generalizing read with
  | nil => rw [List.append_nil]; rfl
  | cons f fields ih =>
    have fresh : f ∉ read := fun old =>
      List.disjoint_of_nodup_append nodup old List.mem_cons_self
    have step : (part s read).take (.known s f) = some (part s (read ++ [f])) := by
      rw [take, has_part, if_neg (by simpa using fresh), put_part]
    have more : read ++ f :: fields = read ++ [f] ++ fields := by simp
    rw [List.map_cons, List.foldlM_cons, step, more]
    exact ih (more ▸ nodup)

theorem take_all_fields (s : HookSpec) {fields : List Field} (nodup : fields.Nodup) :
    (fields.map (Entry.known s)).foldlM take {} = some (part s fields) := by
  have taken : (fields.map (Entry.known s)).foldlM take (part s []) = some (part s ([] ++ fields)) :=
    take_fields s nodup
  rwa [part_nil, List.nil_append] at taken

/-- A field that has been read already is refused, wherever it comes. -/
theorem take_again (has : d.has f = true) (s : HookSpec) {fields : List Field} (hf : f ∈ fields) :
    (fields.map (Entry.known s)).foldlM take d = none := by
  induction fields generalizing d with
  | nil => cases hf
  | cons g fields ih =>
    rw [List.map_cons, List.foldlM_cons, take]
    split
    · rfl
    · next fresh =>
      rcases List.mem_cons.1 hf with rfl | later
      · exact absurd has fresh
      · exact ih (has_put_of_has has s g) later

/-- A surplus member is refused, or the field that it stands for is later on. -/
theorem take_surplus {before after : List Field} (tells : Tells s (before ++ after)) {entry : Entry}
    (surplus : entry.Surplus (before ++ after)) :
    (before.map (Entry.known s) ++ entry :: after.map (.known s)).foldlM take {} = none := by
  have first := take_all_fields s (List.Nodup.of_append_left tells.nodup)
  rw [List.foldlM_append, first, Option.bind_eq_bind, Option.bind_some, List.foldlM_cons]
  cases entry with
  | unknown name foreign => rfl
  | known s' f =>
    rw [take, has_part]
    split
    · rfl
    · next fresh =>
      have later : f ∈ after := (List.mem_append.1 surplus).resolve_left (by simpa using fresh)
      exact take_again (has_put_self ..) s later

theorem complete_of_tells {fields : List Field} (tells : Tells s fields) :
    (part s fields).complete = .ok s := by
  have needed {f : Field} (kept : ¬ f.Omissible s) : f ∈ fields :=
    not_not.1 (mt (tells.omitted f) kept)
  have flag {f : Field} {b : Bool} (off : f.Omissible s → b = false) :
      (if f ∈ fields then some b else none).getD false = b := by
    split
    · rfl
    · next out => exact (off (tells.omitted f out)).symm
  simp only [complete, part, if_pos (needed (f := .key) id), if_pos (needed (f := .start) id),
    if_pos (needed (f := .length) id), flag (f := .dedupe) id, flag (f := .coalesce) id,
    flag (f := .silenced) id]

theorem complete_of_missing {fields : List Field} (needed : f = .key ∨ f = .start ∨ f = .length)
    (out : f ∉ fields) (s : HookSpec) : (part s fields).complete = .error .data := by
  rcases needed with rfl | rfl | rfl <;> simp [complete, part, out]

end Draft

/-! ### The rules of reading -/

/-- What an element of a list is read as. The members of an object are taken by their names, in any
order: one with an unknown name or with a name that was there before is refused (`Draft.take`), and
when all are taken, a flag that is missing is off and any other missing field is refused
(`Draft.complete`). The values of an array are the fields in their order, as far as it goes. -/
inductive ReadAs : Bytes → Except JsonCategory HookSpec → Prop
  | object {s : HookSpec} {fields : List Field} {text : Bytes} (nodup : fields.Nodup)
      (written : ObjectOf (fields.map (.known s)) text) : ReadAs text (Draft.part s fields).complete
  | surplus {entries : List Entry} {text : Bytes}
      (refused : entries.foldlM Draft.take {} = none) (written : ObjectOf entries text) :
      ReadAs text (.error .data)
  | array {s : HookSpec} {fields : List Field} {text : Bytes} (order : fields <+: Field.all)
      (written : ArrayOf s fields text) : ReadAs text (Draft.part s fields).complete

/-- The rules of a deserializer, as far as they are about hook lists. -/
structure ReadingRules (read : Bytes → Except JsonCategory (List HookSpec)) : Prop where
  /-- An array of elements that can be read is the list of what they are read as. -/
  accepted : ∀ (specs : List HookSpec) (text : Bytes),
    ListOf (specs.map fun s t => ReadAs t (.ok s)) text → read text = .ok specs
  /-- The first element that cannot be read decides, whatever comes after it. -/
  refused : ∀ (before : List HookSpec) (e : JsonCategory) (after : List (Bytes → Prop))
    (text : Bytes), ListOf ((before.map fun s t => ReadAs t (.ok s)) ++
      (fun t => ReadAs t (.error e)) :: after) text → read text = .error e

theorem readAs_of_text {s : HookSpec} {text : Bytes} (renders : HookText s text) :
    ReadAs text (.ok s) := by
  rcases renders with ⟨fields, tells, object⟩ | ⟨fields, order, tells, array⟩
  · rw [← Draft.complete_of_tells tells]
    exact .object tells.nodup object
  · rw [← Draft.complete_of_tells tells]
    exact .array order array

/-- A spoiled object is refused, by one of its members or for want of one. -/
theorem readAs_of_spoiled {s : HookSpec} {entries : List Entry} (spoils : Spoils s entries)
    {text : Bytes} (object : ObjectOf entries text) : ReadAs text (.error .data) := by
  cases spoils with
  | added tells surplus => exact .surplus (Draft.take_surplus tells surplus) object
  | @dropped fields f tells needed =>
    have out : f ∉ fields.erase f := tells.nodup.not_mem_erase
    rw [← Draft.complete_of_missing needed out s]
    exact .object (tells.nodup.erase f) object

theorem ListOf.imp {items items' : List (Bytes → Prop)} {text : Bytes} (list : ListOf items text)
    (more : List.Forall₂ (fun Item Item' => ∀ t, Item t → Item' t) items items') :
    ListOf items' text := by
  obtain ⟨ws, body, ws', blank, blank', items, same⟩ := list
  exact ⟨ws, body, ws', blank, blank', items.imp more, same⟩

theorem forall₂_readAs (specs : List HookSpec) :
    List.Forall₂ (fun Item Item' => ∀ t, Item t → Item' t) (specs.map HookText)
      (specs.map fun s t => ReadAs t (.ok s)) :=
  List.forall₂_map_left_iff.2 <| List.forall₂_map_right_iff.2 <|
    List.forall₂_same.2 fun _ _ _ => readAs_of_text

/-- Whoever keeps to the rules reads a rendering as the list that it renders, and refuses one with a
spoiled object. -/
theorem ReadingRules.rendering {read : Bytes → Except JsonCategory (List HookSpec)}
    (rules : ReadingRules read) :
    (∀ (specs : List HookSpec) (text : Bytes), Renders specs text → read text = .ok specs) ∧
      ∀ (before : List HookSpec) (s : HookSpec) (after : List HookSpec) (entries : List Entry)
        (text : Bytes), Spoils s entries →
          ListOf (before.map HookText ++ ObjectOf entries :: after.map HookText) text →
            read text = .error .data := by
  constructor
  · intro specs text renders
    exact rules.accepted specs text (renders.imp (forall₂_readAs specs))
  · intro before s after entries text spoils list
    refine rules.refused before .data (after.map HookText) text (list.imp ?_)
    refine List.rel_append (forall₂_readAs before) (.cons ?_ (List.forall₂_same.2 fun _ _ _ => id))
    exact fun t object => readAs_of_spoiled spoils object

/-! ### Reading members and values -/

/-- A text that a value is read from starts with none of the signs that stand between values. -/
theorem Field.Written.head {s : HookSpec} {f : Field} {text : Bytes} (written : f.Written s text) :
    ∃ c rest, text = c :: rest ∧ isBlank c = false ∧ c ≠ ascii ']' := by
  have number {n : Nat} (written : Decimal n text) :
      ∃ c rest, text = c :: rest ∧ isBlank c = false ∧ c ≠ ascii ']' := by
    obtain ⟨c, rest, rfl⟩ := List.exists_cons_of_ne_nil written.nonempty
    obtain ⟨solid, -, open'⟩ := digit_ne (written.digits c List.mem_cons_self)
    exact ⟨c, rest, rfl, solid, open'⟩
  have flag {b : Bool} (written : text = truth b) :
      ∃ c rest, text = c :: rest ∧ isBlank c = false ∧ c ≠ ascii ']' := by
    subst written
    cases b <;> exact ⟨_, _, rfl, by decide, by decide⟩
  cases f with
  | key | start | length => exact number written
  | dedupe | coalesce | silenced => exact flag written

/-- The value of a field is read as what it is. -/
theorem readField_of_written {s : HookSpec} {f : Field} {ws text rest : Bytes} (blank : Blank ws)
    (written : f.Written s text) (stops : Stops rest) (d : Draft) :
    d.readField f (ws ++ (text ++ rest)) = .ok (d.put s f, rest) := by
  have byte := UInt8.toNat_lt s.key
  have start := UInt32.toNat_lt s.start
  have length := UInt32.toNat_lt s.length
  cases f with
  | key =>
    have read : natural 0xff (ws ++ (text ++ rest)) = .ok (s.key.toNat, rest) :=
      natural_of_decimal blank written (by omega) (by decide) stops
    simp only [Draft.readField, read, Except.map, UInt8.ofNat_toNat, Draft.put]
  | start =>
    have read : natural 0xffffffff (ws ++ (text ++ rest)) = .ok (s.start.toNat, rest) :=
      natural_of_decimal blank written (by omega) (by decide) stops
    simp only [Draft.readField, read, Except.map, UInt32.ofNat_toNat, Draft.put]
  | length =>
    have read : natural 0xffffffff (ws ++ (text ++ rest)) = .ok (s.length.toNat, rest) :=
      natural_of_decimal blank written (by omega) (by decide) stops
    simp only [Draft.readField, read, Except.map, UInt32.ofNat_toNat, Draft.put]
  | dedupe =>
    obtain rfl : text = truth s.dedupe := written
    simp only [Draft.readField, boolean_of_truth blank, Except.map, Draft.put]
  | coalesce =>
    obtain rfl : text = truth s.coalesce := written
    simp only [Draft.readField, boolean_of_truth blank, Except.map, Draft.put]
  | silenced =>
    obtain rfl : text = truth s.silenced := written
    simp only [Draft.readField, boolean_of_truth blank, Except.map, Draft.put]

/-- A member that is taken is read up to its end. -/
theorem member_of_taken {d d' : Draft} {entry : Entry} {text rest : Bytes}
    (taken : d.take entry = some d') (written : entry.Written text) (stops : Stops rest) :
    ∃ inner, text = ascii '"' :: inner ∧ member d (inner ++ rest) = .ok (d', rest) := by
  cases entry with
  | unknown name foreign => cases taken
  | known s f =>
    obtain ⟨value, written, spelled, ws, ws', spells, blank, blank', rfl⟩ := written
    rw [Draft.take] at taken
    split at taken
    · cases taken
    · next fresh =>
      cases taken
      refine ⟨_, rfl, ?_⟩
      simp only [member, List.append_assoc, List.cons_append, string_of_spells spells,
        Field.ofName?_text, if_neg fresh, colon_of_blank blank,
        readField_of_written blank' written stops]

/-- A member that is refused is read up to its name. -/
theorem member_of_refused {d : Draft} {entry : Entry} {text : Bytes}
    (refused : d.take entry = none) (written : entry.Written text) (rest : Bytes) :
    ∃ inner, text = ascii '"' :: inner ∧ member d (inner ++ rest) = .error .data := by
  cases entry with
  | unknown name foreign =>
    obtain ⟨value, spelled, ws, ws', spells, -, -, rfl⟩ := written
    refine ⟨_, rfl, ?_⟩
    simp only [member, List.append_assoc, List.cons_append, string_of_spells spells,
      Field.ofName?_of_foreign foreign]
  | known s f =>
    obtain ⟨value, -, spelled, ws, ws', spells, -, -, rfl⟩ := written
    rw [Draft.take] at refused
    split at refused
    · next old =>
      refine ⟨_, rfl, ?_⟩
      simp only [member, List.append_assoc, List.cons_append, string_of_spells spells,
        Field.ofName?_text, if_pos old]
    · cases refused

theorem stops_brace : Stops [ascii '\x7d'] := by
  rintro _ ⟨⟩
  decide

theorem stops_bracket : Stops [ascii ']'] := by
  rintro _ ⟨⟩
  decide

/-- One more member is read, and then the others. -/
theorem members_succ_of_taken {d d' : Draft} {entry : Entry} {first : Bool} {sep text rest : Bytes}
    (separates : Separates first sep) (taken : d.take entry = some d')
    (written : entry.Written text) (stops : Stops rest) (rounds : Nat) :
    members (rounds + 1) first d (sep ++ (text ++ rest)) = members rounds false d' rest := by
  obtain ⟨inner, rfl, read⟩ := member_of_taken taken written stops
  simp only [members, List.cons_append, nextName_of_separates separates, read]

/-- Members that are all taken are read up to the brace. -/
theorem members_of_taken {entries : List Entry} {first : Bool} {d d' : Draft} {body : Bytes}
    {rounds : Nat} (taken : entries.foldlM Draft.take d = some d')
    (items : Items (ascii '\x7d') first (entries.map Entry.Written) body)
    (enough : entries.length < rounds) (rest : Bytes) :
    ∃ ws, Blank ws ∧
      members rounds first d (body ++ rest) = .ok (d', ws ++ ascii '\x7d' :: rest) := by
  induction entries generalizing first d body rounds with
  | nil =>
    cases taken
    obtain ⟨rounds, rfl⟩ := Nat.exists_eq_succ_of_ne_zero (Nat.pos_iff_ne_zero.1 enough)
    cases items with
    | @stop _ ws blank =>
      refine ⟨ws, blank, ?_⟩
      simp only [members, List.append_assoc, List.singleton_append, nextName_of_blank blank]
  | cons entry entries ih =>
    rw [List.foldlM_cons, Option.bind_eq_bind, Option.bind_eq_some_iff] at taken
    obtain ⟨d₁, step, taken⟩ := taken
    obtain ⟨rounds, rfl⟩ := Nat.exists_eq_succ_of_ne_zero (Nat.ne_zero_of_lt enough)
    cases items with
    | item separates written items =>
      have stops := items.stops stops_brace rest
      obtain ⟨ws, blank, read⟩ := ih taken items (Nat.lt_of_succ_lt_succ enough)
      refine ⟨ws, blank, ?_⟩
      rw [List.append_assoc, List.append_assoc, members_succ_of_taken separates step written stops,
        read]

/-- If one of them is refused, so is the object. -/
theorem members_of_refused {entries : List Entry} {first : Bool} {d : Draft} {body : Bytes}
    (refused : entries.foldlM Draft.take d = none)
    (items : Items (ascii '\x7d') first (entries.map Entry.Written) body) (rounds : Nat)
    (rest : Bytes) : members rounds first d (body ++ rest) = .error .data := by
  induction entries generalizing first d body rounds with
  | nil => cases refused
  | cons entry entries ih =>
    cases rounds with
    | zero => rfl
    | succ rounds =>
      cases items with
      | @item _ sep _ _ text more separates written items =>
        cases step : d.take entry with
        | none =>
          obtain ⟨inner, rfl, read⟩ := member_of_refused step written (more ++ rest)
          simp only [members, List.append_assoc, List.cons_append, nextName_of_separates separates,
            read]
        | some d₁ =>
          rw [List.foldlM_cons, step] at refused
          have stops := items.stops stops_brace rest
          rw [List.append_assoc, List.append_assoc,
            members_succ_of_taken separates step written stops]
          exact ih refused items rounds

/-- The values of an array are read in field order, up to the bracket. -/
theorem values_of_items {s : HookSpec} {fields : List Field} {first : Bool} {body : Bytes}
    (items : Items (ascii ']') first (fields.map (Field.Written s)) body) (left : List Field)
    (d : Draft) (rest : Bytes) :
    ∃ ws, Blank ws ∧ values (fields ++ left) first d (body ++ rest) =
      .ok (fields.foldl (fun d f => d.put s f) d, ws ++ ascii ']' :: rest) := by
  induction fields generalizing first d body with
  | nil =>
    cases items with
    | @stop _ ws blank =>
      refine ⟨ws, blank, ?_⟩
      -- the array may be over before all fields have been asked for
      cases left with
      | nil => simp only [values, List.append_nil, List.append_assoc, List.singleton_append,
          List.foldl_nil]
      | cons f left => simp only [values, List.nil_append, List.append_assoc,
          List.singleton_append, nextItem_of_blank blank, List.foldl_nil]
  | cons f fields ih =>
    cases items with
    | @item _ sep _ _ text more separates written items =>
      obtain ⟨c, tail, rfl, solid, open'⟩ := written.head
      have read := readField_of_written blank_nil written (items.stops stops_bracket rest) d
      obtain ⟨ws, blank, end'⟩ := ih items (d.put s f)
      refine ⟨ws, blank, ?_⟩
      simp only [List.nil_append, List.cons_append] at read
      simp only [values, List.append_assoc, List.cons_append,
        nextItem_of_separates separates solid open', read, end', List.foldl_cons]

/-! ### Reading hooks -/

theorem Field.length_lt {fields : List Field} (nodup : fields.Nodup) :
    fields.length < Field.all.length + 1 :=
  Nat.lt_succ_of_le (List.Nodup.subperm nodup fun f _ => f.mem_all).length_le

/-- Behind a brace the members of an object are read. -/
theorem hook_brace (body rest : Bytes) :
    hook (ascii '\x7b' :: body ++ rest) =
      (members (Field.all.length + 1) true {} (body ++ rest)).bind fun r =>
        r.1.complete.bind fun spec => (closeObject r.2).map fun s => (spec, s) := by
  have other : ascii '\x7b' ≠ ascii '[' := by decide
  have start := skipBlanks_cons (by decide : isBlank (ascii '\x7b') = false) (body ++ rest)
  simp only [hook, List.cons_append, start, if_neg other, if_true]
  cases members (Field.all.length + 1) true {} (body ++ rest) with
  | error e => rfl
  | ok r => cases complete : r.1.complete <;> simp only [complete, Except.bind]

/-- An element is read as the rules say, up to its end. -/
theorem hook_of_readAs {text : Bytes} {outcome : Except JsonCategory HookSpec}
    (reads : ReadAs text outcome) (rest : Bytes) :
    hook (text ++ rest) = outcome.map fun s => (s, rest) := by
  cases reads with
  | @object s fields _ nodup written =>
    obtain ⟨body, items, rfl⟩ := written
    obtain ⟨ws, blank, read⟩ := members_of_taken (Draft.take_all_fields s nodup) items
      (by rw [List.length_map]; exact Field.length_lt nodup) rest
    simp only [hook_brace, read, Except.bind]
    cases (Draft.part s fields).complete with
    | error e => rfl
    | ok spec => simp only [closeObject_of_blank blank, Except.map]
  | surplus refused written =>
    obtain ⟨body, items, rfl⟩ := written
    simp only [hook_brace, members_of_refused refused items, Except.bind, Except.map]
  | @array s fields _ order written =>
    obtain ⟨body, items, rfl⟩ := written
    obtain ⟨left, order⟩ := order
    obtain ⟨ws, blank, read⟩ := values_of_items items left {} rest
    rw [order, ← Draft.part_nil s, Draft.foldl_put_part, List.nil_append, Draft.part_nil] at read
    have start := skipBlanks_cons (by decide : isBlank (ascii '[') = false) (body ++ rest)
    simp only [hook, List.cons_append, start, if_true, read]
    cases (Draft.part s fields).complete with
    | error e => simp only [Except.map]
    | ok spec => simp only [closeArray_of_blank blank, Except.map]

/-- Elements start with a bracket or a brace. -/
theorem ReadAs.head {text : Bytes} {outcome : Except JsonCategory HookSpec}
    (reads : ReadAs text outcome) :
    ∃ c tail, text = c :: tail ∧ isBlank c = false ∧ c ≠ ascii ']' := by
  cases reads with
  | object _ written | surplus _ written =>
    obtain ⟨body, -, rfl⟩ := written
    exact ⟨_, body, rfl, by decide, by decide⟩
  | array _ written =>
    obtain ⟨body, -, rfl⟩ := written
    exact ⟨_, body, rfl, by decide, by decide⟩

/-- One more element is read, and then the others, unless it is refused. -/
theorem hooks_succ_of_readAs {text : Bytes} {outcome : Except JsonCategory HookSpec} {first : Bool}
    {sep : Bytes} (separates : Separates first sep) (reads : ReadAs text outcome) (rounds : Nat)
    (rest : Bytes) :
    hooks (rounds + 1) first (sep ++ (text ++ rest)) =
      outcome.bind fun s => (hooks rounds false rest).map fun (specs, t) => (s :: specs, t) := by
  have read := hook_of_readAs reads rest
  obtain ⟨c, tail, rfl, solid, open'⟩ := reads.head
  rw [List.cons_append] at read ⊢
  simp only [hooks, nextItem_of_separates separates solid open', read]
  cases outcome <;> rfl

/-- The hooks of a list are read up to the bracket. -/
theorem hooks_of_items {specs : List HookSpec} {first : Bool} {body : Bytes} {rounds : Nat}
    (items : Items (ascii ']') first (specs.map fun s t => ReadAs t (.ok s)) body)
    (enough : specs.length < rounds) (rest : Bytes) :
    ∃ ws, Blank ws ∧
      hooks rounds first (body ++ rest) = .ok (specs, ws ++ ascii ']' :: rest) := by
  induction specs generalizing first body rounds with
  | nil =>
    obtain ⟨rounds, rfl⟩ := Nat.exists_eq_succ_of_ne_zero (Nat.pos_iff_ne_zero.1 enough)
    cases items with
    | @stop _ ws blank =>
      refine ⟨ws, blank, ?_⟩
      simp only [hooks, List.append_assoc, List.singleton_append, nextItem_of_blank blank]
  | cons s specs ih =>
    obtain ⟨rounds, rfl⟩ := Nat.exists_eq_succ_of_ne_zero (Nat.ne_zero_of_lt enough)
    cases items with
    | item separates written items =>
      obtain ⟨ws, blank, read⟩ := ih items (Nat.lt_of_succ_lt_succ enough)
      refine ⟨ws, blank, ?_⟩
      rw [List.append_assoc, List.append_assoc, hooks_succ_of_readAs separates written, read]
      rfl

/-- An element that is refused has the list refused. -/
theorem hooks_of_refused {e : JsonCategory} {before : List HookSpec} {after : List (Bytes → Prop)}
    {first : Bool} {body : Bytes} {rounds : Nat}
    (items : Items (ascii ']') first ((before.map fun s t => ReadAs t (.ok s)) ++
      (fun t => ReadAs t (.error e)) :: after) body)
    (enough : before.length < rounds) (rest : Bytes) :
    hooks rounds first (body ++ rest) = .error e := by
  obtain ⟨rounds, rfl⟩ := Nat.exists_eq_succ_of_ne_zero (Nat.ne_zero_of_lt enough)
  induction before generalizing first body rounds with
  | nil =>
    cases items with
    | item separates written items =>
      rw [List.append_assoc, List.append_assoc, hooks_succ_of_readAs separates written]
      rfl
  | cons s before ih =>
    cases items with
    | item separates written items =>
      have later := Nat.lt_of_succ_lt_succ enough
      obtain ⟨rounds, rfl⟩ := Nat.exists_eq_succ_of_ne_zero (Nat.ne_zero_of_lt later)
      rw [List.append_assoc, List.append_assoc, hooks_succ_of_readAs separates written,
        ih items rounds later]
      rfl

/-! ### Reading lists -/

/-- Every list has a rendering. -/
theorem exists_rendering (specs : List HookSpec) : ∃ text, Renders specs text := by
  have value (s : HookSpec) (f : Field) : ∃ text, f.Written s text := by
    cases f with
    | key | start | length => exact exists_decimal _
    | dedupe | coalesce | silenced => exact ⟨_, rfl⟩
  have array (s : HookSpec) : ∃ text, HookText s text := by
    obtain ⟨body, items⟩ := exists_items (ascii ']') true (Field.all.map (Field.Written s))
      (List.forall_mem_map.2 fun f _ => value s f)
    exact ⟨_, .inr ⟨Field.all, List.prefix_rfl,
      ⟨by decide, fun f out => absurd f.mem_all out⟩, body, items, rfl⟩⟩
  obtain ⟨body, items⟩ := exists_items (ascii ']') true (specs.map HookText)
    (List.forall_mem_map.2 fun s _ => array s)
  exact ⟨_, [], body, [], blank_nil, blank_nil, items, rfl⟩

/-- The reader keeps to the rules. -/
theorem parse_readingRules : ReadingRules parse where
  accepted := by
    have solid : isBlank (ascii '[') = false := by decide
    rintro specs _ ⟨ws, body, ws', blank, blank', items, rfl⟩
    have enough : specs.length < (body ++ ws').length + 1 := by
      have few := items.length_le
      rw [List.length_map] at few
      rw [List.length_append]
      simp only [if_true] at few
      omega
    obtain ⟨ws'', blank'', read⟩ := hooks_of_items items enough ws'
    simp only [parse, skipBlanks_append blank solid, if_true, read, closeArray_of_blank blank'',
      finish_of_blank blank']
    rfl
  refused := by
    have solid : isBlank (ascii '[') = false := by decide
    rintro before e after _ ⟨ws, body, ws', blank, -, items, rfl⟩
    have enough : before.length < (body ++ ws').length + 1 := by
      have few := items.length_le
      rw [List.length_append, List.length_map, List.length_cons] at few
      rw [List.length_append]
      simp only [if_true] at few
      omega
    simp only [parse, skipBlanks_append blank solid, if_true, hooks_of_refused items enough]

/-- A text that renders a hook list is read as that list. A text in which one object has a member
with an unknown name or a second copy of one of its fields, at any place, or in which one object is
without its key, its start or its length, is refused for what it says. -/
theorem parse_of_rendering :
    (∀ (specs : List HookSpec) (text : Bytes), Renders specs text → parse text = .ok specs) ∧
      ∀ (before : List HookSpec) (s : HookSpec) (after : List HookSpec) (entries : List Entry)
        (text : Bytes), Spoils s entries →
          ListOf (before.map HookText ++ ObjectOf entries :: after.map HookText) text →
            parse text = .error .data :=
  parse_readingRules.rendering

example :
    parse ("[\x7b\"start\":8,\"k\\u0065y\":3 , \"length\":4\x7d,[5,1,2,true]]".toList.map ascii) =
      .ok [{ key := 3, start := 8, length := 4 },
        { key := 5, start := 1, length := 2, dedupe := true }] := by
  decide +kernel

/-- A start that comes a second time. -/
theorem second_start_refused :
    let text := "[\x7b\"key\":3,\"start\":8,\"length\":4,\"start\":8\x7d]"
    parse (text.toList.map ascii) = .error .data := by
  intro text
  let s : HookSpec := { key := 3, start := 8, length := 4 }
  have member {f : Field} {value : Bytes} (written : f.Written s value) :
      (Entry.known s f).Written
        (ascii '"' :: (f.text ++ ascii '"' :: ([] ++ ascii ':' :: ([] ++ value)))) :=
    ⟨value, written, f.text, [], [], spells_self (List.all_eq_true.1 (by cases f <;> decide)),
      blank_nil, blank_nil, rfl⟩
  have digit (c : UInt8) (one : isDigit c = true) : Decimal (digitValue c) [c] :=
    ⟨List.forall_mem_singleton.2 one, List.cons_ne_nil _ _,
      fun zero => congrArg (fun c => [c]) (Option.some.inj zero), by simp [shift]⟩
  have nothing : Separates true [] := blank_nil
  have comma : Separates false ([] ++ ascii ',' :: []) := ⟨[], [], blank_nil, blank_nil, rfl⟩
  have key : Field.key.Written s [ascii '3'] := digit (ascii '3') rfl
  have start : Field.start.Written s [ascii '8'] := digit (ascii '8') rfl
  have length : Field.length.Written s [ascii '4'] := digit (ascii '4') rfl
  have tells : Tells s ([.key, .start, .length] ++ []) :=
    ⟨by decide, fun f out => by cases f <;> first | rfl | exact absurd (by decide) out⟩
  have brace : Items (ascii '\x7d') false [] ([] ++ [ascii '\x7d']) := .stop blank_nil
  have object := Items.item nothing (member key) <| .item comma (member start) <|
    .item comma (member length) <| .item comma (member start) brace
  have again : (Entry.known s .start).Surplus ([.key, .start, .length] ++ []) :=
    List.mem_cons_of_mem _ List.mem_cons_self
  exact parse_of_rendering.2 [] s [] _ _ (.added tells again)
    ⟨[], _, [], blank_nil, blank_nil, .item nothing ⟨_, object, rfl⟩ (.stop blank_nil), by decide⟩

end ConsoleBus.HookListing
