import Mathlib.Data.List.TakeDrop
import Mathlib.Tactic.IntervalCases
import Dataflow.Json.Printer
import Dataflow.Proofs.Brackets

/-! # Values read from their texts

    The reader undoes the printer. Every character of a string is written so that
    the reader takes exactly its text for it, and a whole number that fits 64
    bits is read up to its last digit. So a value without numbers of a binary
    format is read back from its text, whatever follows it, as far as brackets may
    be opened, and the text says which value it is, however deep they nest.

    Main statements:
    - `readValue?_text`: a value at the start of a text is read back, but for what
      is nested too deep
    - `parse?_text`: a whole text gives the value that it was written for exactly
      if its brackets nest no deeper than the limit
    - `text_inj`: different values have different texts
-/

namespace Dataflow

namespace Json

/-! ## Section 1: Strings -/

theorem hexValue?_hexDigit {n : Nat} (h : n < 16) : hexValue? (hexDigit n) = some n := by
  have hall : ∀ n < 16, hexValue? (hexDigit n) = some n := by decide
  exact hall n h

/-- The text of a character gives the code of the character. -/
theorem readCodes?_escapeChar (seen : List Nat) (c : Char) (rest : List Char) :
    readCodes? seen (escapeChar c ++ rest) = readCodes? (c.toNat :: seen) rest := by
  unfold escapeChar
  -- The seven characters with a mark of their own go first.
  iterate 7
    split
    · rename_i hc
      subst hc
      rfl
  split
  · rename_i hcontrol
    have hhigh := hexValue?_hexDigit (n := c.toNat / 16) (by omega)
    have hlow := hexValue?_hexDigit (n := c.toNat % 16) (by omega)
    have hzero : hexValue? '0' = some 0 := by decide
    have hcode : hexValue4? '0' '0' (hexDigit (c.toNat / 16)) (hexDigit (c.toNat % 16)) =
        some c.toNat := by
      simp only [hexValue4?, hhigh, hlow, hzero]
      simp
      omega
    simp [readCodes?, hcode]
  · rename_i hquote hback _ _ _ _ _ hcontrol
    rw [List.cons_append, List.nil_append, readCodes?]
    · rw [if_neg hcontrol]
    · exact hquote
    · intro _ _ _ _ _ h
      exact absurd h hback
    · intro _ _ h
      exact absurd h hback

theorem readCodes?_flatMap (seen : List Nat) (l rest : List Char) :
    readCodes? seen (l.flatMap escapeChar ++ '"' :: rest) =
      some (seen.reverse ++ l.map Char.toNat, rest) := by
  induction l generalizing seen with
  | nil => simp [readCodes?]
  | cons c l ih =>
    rw [List.flatMap_cons, List.append_assoc, readCodes?_escapeChar, ih]
    simp

/-- No character has the code of a surrogate, so codes of characters give these characters. -/
theorem ofCodes?_map (seen l : List Char) :
    ofCodes? seen (l.map Char.toNat) = some (seen.reverse ++ l) := by
  induction l generalizing seen with
  | nil => simp [ofCodes?]
  | cons c l ih =>
    have hvalid : c.toNat < 0xd800 ∨ 0xdfff < c.toNat := by
      rcases c.valid with h | h
      · exact .inl h
      · exact .inr h.1
    have hhigh : isHighSurrogate c.toNat = false := by
      unfold isHighSurrogate
      rcases hvalid with h | h <;> simp <;> omega
    have hlow : isLowSurrogate c.toNat = false := by
      unfold isLowSurrogate
      rcases hvalid with h | h <;> simp <;> omega
    rw [List.map_cons, ofCodes?.eq_def]
    simp only [hhigh, hlow, Char.ofNat_toNat]
    simp [ih]

/-- A string is read back from its text. -/
theorem readString?_flatMap (s : String) (rest : List Char) :
    readString? (s.toList.flatMap escapeChar ++ '"' :: rest) = some (some s, rest) := by
  simp [readString?, readCodes?_flatMap, ofCodes?_map]

/-! ## Section 2: Whole numbers -/

/-- A text that does not go on with a number. -/
def EndsNumber (rest : List Char) : Prop :=
  ∀ c ∈ rest.head?, c.isDigit = false ∧ c ≠ '.' ∧ c ≠ 'e' ∧ c ≠ 'E'

theorem le_ofDigitChars (l : List Char) (start : Nat) : start ≤ Nat.ofDigitChars 10 l start := by
  rw [Nat.ofDigitChars_eq_ofDigitChars_zero]
  calc
    start ≤ 10 ^ l.length * start := Nat.le_mul_of_pos_left start (Nat.pow_pos (by decide))
    _ ≤ _ := Nat.le_add_right ..

/-- Digits of a number that fits the significand are all taken into it. -/
theorem takeDigits_append {digits rest : List Char} (hdigits : ∀ c ∈ digits, c.isDigit)
    (hrest : EndsNumber rest) (start : Nat)
    (hle : Nat.ofDigitChars 10 digits start ≤ greatestSignificand) :
    takeDigits start (digits ++ rest) = (Nat.ofDigitChars 10 digits start, digits.length, rest) := by
  induction digits generalizing start with
  | nil =>
    cases rest with
    | nil => rfl
    | cons c rest =>
      have hc := (hrest c rfl).1
      simp [takeDigits, hc]
  | cons c digits ih =>
    rw [Nat.ofDigitChars_cons] at hle
    have hnext := Nat.le_trans (le_ofDigitChars digits _) hle
    have hc := hdigits c (List.mem_cons_self ..)
    rw [List.cons_append, takeDigits, if_pos ⟨hc, hnext⟩,
      ih (fun d hd => hdigits d (List.mem_cons_of_mem _ hd)) _ hle]
    simp [Nat.ofDigitChars_cons]

/-- The first digit of a number is not zero, unless the number is. -/
theorem exists_toDigits (n : Nat) : ∃ d rest, Nat.toDigits 10 n = Nat.digitChar d :: rest ∧ d < 10 ∧
    (d = 0 → n = 0) := by
  induction n using Nat.strongRecOn with
  | ind n ih =>
    by_cases hn : n < 10
    · exact ⟨n, [], Nat.toDigits_of_lt_base hn, hn, id⟩
    · obtain ⟨d, rest, hdigits, hd, hzero⟩ := ih (n / 10) (by omega)
      refine ⟨d, rest ++ [Nat.digitChar (n % 10)], ?_, hd, fun hd => ?_⟩
      · rw [Nat.toDigits_of_base_le (by decide) (by omega), hdigits, List.cons_append]
      · have := hzero hd
        omega

theorem finishNumber?_of_endsNumber {rest : List Char} (hrest : EndsNumber rest) (negative : Bool)
    (n : Nat) : finishNumber? negative n 0 rest = some (wholeNumber negative n, rest) := by
  cases rest with
  | nil => rfl
  | cons c rest =>
    obtain ⟨-, hpoint, he, hE⟩ := hrest c rfl
    unfold finishNumber?
    split
    · rename_i h
      exact absurd (List.cons.inj h).1 hpoint
    · rename_i h
      rw [(List.cons.inj h).1] at he hE
      simp [he, hE]
    · rename_i h
      simp at h

theorem span_of_endsNumber {rest : List Char} (hrest : EndsNumber rest) :
    rest.span Char.isDigit = ([], rest) := by
  cases rest with
  | nil => rfl
  | cons c rest =>
    have hc := (hrest c rfl).1
    simp [List.span_eq_takeWhile_dropWhile, hc]

/-- The digits of a number that fits the significand give this number. -/
theorem readUnsigned?_toDigits {n : Nat} {rest : List Char} (hn : n ≤ greatestSignificand)
    (hrest : EndsNumber rest) (negative : Bool) :
    readUnsigned? negative (Nat.toDigits 10 n ++ rest) = some (wholeNumber negative n, rest) := by
  by_cases hzero : n = 0
  · subst hzero
    have hhead : rest.head?.any Char.isDigit = false := by
      cases rest with
      | nil => rfl
      | cons c rest => exact (hrest c rfl).1
    have hread : readUnsigned? negative (Nat.toDigits 10 0 ++ rest) =
      if rest.head?.any Char.isDigit then none else finishNumber? negative 0 0 rest := rfl
    rw [hread, hhead, if_neg (by decide), finishNumber?_of_endsNumber hrest]
  · have hdigits : ∀ c ∈ Nat.toDigits 10 n, c.isDigit := fun c hc =>
      Nat.isDigit_of_mem_toDigits (by decide) (by decide) hc
    have htake := takeDigits_append hdigits hrest 0 (Nat.ofDigitChars_ten_toDigits ▸ hn)
    rw [Nat.ofDigitChars_ten_toDigits] at htake
    obtain ⟨d, tail, htext, hd, hnonzero⟩ := exists_toDigits n
    have hd0 : d ≠ 0 := fun h => hzero (hnonzero h)
    have hfirst : (Nat.digitChar d).isDigit := by
      rw [Nat.isDigit_digitChar]
      exact decide_eq_true hd
    rw [htext] at htake ⊢
    unfold readUnsigned?
    split
    · rename_i h
      exact absurd (List.cons.inj h).1 (by simpa using hd0)
    · rename_i h
      rw [(List.cons.inj h).1] at hfirst
      rw [if_pos hfirst, htake]
      simp only [span_of_endsNumber hrest, List.length_nil, finishNumber?_of_endsNumber hrest]
    · rename_i h
      simp at h

/-- A whole number that fits 64 bits, with or without sign, is read back from its text. -/
theorem readNumber?_integerText {i : Int} (hlow : -2 ^ 63 ≤ i) (hhigh : i < 2 ^ 64)
    {rest : List Char} (hrest : EndsNumber rest) :
    readNumber? (integerText i ++ rest) = some (.integer i, rest) := by
  have hgreatest : greatestSignificand = 2 ^ 64 - 1 := rfl
  unfold integerText
  by_cases hneg : i < 0
  · rw [if_pos hneg]
    show readUnsigned? true (Nat.toDigits 10 i.natAbs ++ rest) = _
    rw [readUnsigned?_toDigits (by omega) hrest]
    have hhalf : UInt64.size / 2 = 2 ^ 63 := rfl
    have hnatAbs : -Int.ofNat i.natAbs = i := by
      show -(i.natAbs : Int) = i
      omega
    rw [wholeNumber, if_pos rfl, if_neg (by omega), hnatAbs]
  · rw [if_neg hneg]
    have hread : readNumber? (Nat.toDigits 10 i.natAbs ++ rest) =
        readUnsigned? false (Nat.toDigits 10 i.natAbs ++ rest) := by
      obtain ⟨d, tail, htext, hd, -⟩ := exists_toDigits i.natAbs
      rw [htext]
      unfold readNumber?
      split
      · rename_i h
        have hdigit := Nat.isDigit_digitChar (n := d)
        rw [(List.cons.inj h).1] at hdigit
        simp [hd] at hdigit
      · rfl
    have hnatAbs : Int.ofNat i.natAbs = i := by
      show (i.natAbs : Int) = i
      omega
    rw [hread, readUnsigned?_toDigits (by omega) hrest, wholeNumber, if_neg (by decide), hnatAbs]

/-! ## Section 3: Values -/

/-- A value without numbers of a binary format, whose whole numbers fit 64 bits. -/
inductive Exact : Json → Prop where
  | null : Exact .null
  | bool (b : Bool) : Exact (.bool b)
  | integer {i : Int} (hlow : -2 ^ 63 ≤ i) (hhigh : i < 2 ^ 64) : Exact (.integer i)
  | string (s : String) : Exact (.string s)
  | array {items : List Json} (h : ∀ item ∈ items, Exact item) : Exact (.array items)
  | object {members : List (String × Json)} (h : ∀ m ∈ members, Exact m.2) : Exact (.object members)

/-- What may be left of a value is read back from its text, whatever follows but the rest of a
number. -/
def ReadBack (j : Json) : Prop :=
  ∀ fuel depth rest, j.text.length < fuel → EndsNumber rest →
    readValue? fuel depth (j.text ++ rest) = some (j.limited depth, rest)

/-- Fuel for the length of a text is more than none. -/
theorem ReadBack.of_succ {j : Json}
    (h : ∀ fuel depth rest, j.text.length ≤ fuel → EndsNumber rest →
      readValue? (fuel + 1) depth (j.text ++ rest) = some (j.limited depth, rest)) :
    ReadBack j := by
  intro fuel depth rest hfuel hrest
  cases fuel with
  | zero => simp at hfuel
  | succ fuel => exact h fuel depth rest (Nat.le_of_lt_succ hfuel) hrest

/-- A text starts with a value: no blank comes first, and no bracket that closes. -/
def StartsValue (text : List Char) : Prop :=
  ∃ c rest, text = c :: rest ∧ isSpace c = false ∧ c ≠ ']'

theorem StartsValue.append {text : List Char} (h : StartsValue text) (rest : List Char) :
    StartsValue (text ++ rest) := by
  obtain ⟨c, tail, rfl, hspace, hc⟩ := h
  exact ⟨c, tail ++ rest, rfl, hspace, hc⟩

theorem StartsValue.skipSpaces_eq {text : List Char} (h : StartsValue text) :
    skipSpaces text = text := by
  obtain ⟨c, rest, rfl, hspace, -⟩ := h
  simp [skipSpaces, hspace]

theorem startsValue_digitChar {d : Nat} (hd : d < 10) (rest : List Char) :
    StartsValue (Nat.digitChar d :: rest) := by
  refine ⟨_, rest, rfl, ?_⟩
  interval_cases d <;> decide

/-- The text of a value starts with a value. -/
theorem Exact.startsValue {j : Json} (h : j.Exact) : StartsValue j.text := by
  cases h with
  | null => exact ⟨_, _, rfl, by decide⟩
  | bool b => cases b <;> exact ⟨_, _, rfl, by decide⟩
  | @integer i =>
    obtain ⟨d, rest, hdigits, hd, -⟩ := exists_toDigits i.natAbs
    rw [text, integerText, hdigits]
    split
    · exact ⟨_, _, rfl, by decide⟩
    · exact startsValue_digitChar hd rest
  | string s => exact ⟨_, _, rfl, by decide⟩
  | @array items => cases items <;> exact ⟨_, _, rfl, by decide⟩
  | @object members => cases members <;> exact ⟨_, _, rfl, by decide⟩

theorem readBack_integer {i : Int} (hlow : -2 ^ 63 ≤ i) (hhigh : i < 2 ^ 64) :
    ReadBack (.integer i) := by
  apply ReadBack.of_succ
  intro fuel depth rest _ hrest
  have hvalue : readValue? (fuel + 1) depth (integerText i ++ rest) =
      readNumber? (integerText i ++ rest) := by
    unfold integerText
    split
    · rfl
    · obtain ⟨d, tail, hdigits, hd, -⟩ := exists_toDigits i.natAbs
      rw [hdigits]
      interval_cases d <;> rfl
  exact hvalue.trans (readNumber?_integerText hlow hhigh hrest)

theorem readBack_string (s : String) : ReadBack (.string s) := by
  apply ReadBack.of_succ
  intro fuel depth rest _ _
  have htext : (Json.string s).text ++ rest =
      '"' :: (s.toList.flatMap escapeChar ++ '"' :: rest) := by
    simp [text, quoted]
  have hvalue : readValue? (fuel + 1) depth ('"' :: (s.toList.flatMap escapeChar ++ '"' :: rest)) =
      (readString? (s.toList.flatMap escapeChar ++ '"' :: rest)).map fun read =>
        (read.1.elim .unreadable .string, read.2) := rfl
  rw [htext, hvalue, readString?_flatMap]
  rfl

theorem readItems?_text {item : Json} {items : List Json}
    (h : ∀ j ∈ item :: items, StartsValue j.text ∧ ReadBack j) (fuel depth : Nat) (rest : List Char)
    (hfuel : (item.text ++ itemsText items).length < fuel) :
    readItems? fuel depth (item.text ++ itemsText items ++ rest) =
      some ((item :: items).map (limited depth), rest) := by
  induction items generalizing item fuel with
  | nil =>
    cases fuel with
    | zero => simp at hfuel
    | succ fuel =>
      have hread := (h item (List.mem_cons_self ..)).2 fuel depth (']' :: rest)
        (by simp [itemsText] at hfuel; omega) (by simp [EndsNumber])
      simp only [itemsText, List.append_assoc, List.cons_append, List.nil_append, readItems?, hread]
      rfl
  | cons next items ih =>
    cases fuel with
    | zero => simp at hfuel
    | succ fuel =>
      have hread := (h item (List.mem_cons_self ..)).2 fuel depth
        (',' :: (next.text ++ itemsText items ++ rest))
        (by simp [itemsText] at hfuel; omega) (by simp [EndsNumber])
      have hnext := @ih next (fun j hj => h j (List.mem_cons_of_mem _ hj)) fuel
        (by simp [itemsText] at hfuel; simp; omega)
      have htext : item.text ++ itemsText (next :: items) ++ rest =
          item.text ++ ',' :: (next.text ++ itemsText items ++ rest) := by
        simp [itemsText]
      have hcomma : ∀ l : List Char, skipSpaces (',' :: l) = ',' :: l := fun _ => rfl
      rw [htext, readItems?, hread]
      simp only [hcomma, hnext, Option.map_some, List.map_cons]

theorem readBack_array {items : List Json} (h : ∀ j ∈ items, StartsValue j.text ∧ ReadBack j) :
    ReadBack (.array items) := by
  apply ReadBack.of_succ
  intro fuel depth rest hfuel _
  cases items with
  | nil => rfl
  | cons item items =>
    have hstart := (h item (List.mem_cons_self ..)).1.append (itemsText items ++ rest)
    rw [← List.append_assoc] at hstart
    have hread := readItems?_text h fuel (depth - 1) rest (by simp [text] at hfuel; simp; omega)
    have htext : (Json.array (item :: items)).text ++ rest =
        '[' :: (item.text ++ itemsText items ++ rest) := by
      simp [text]
    have hbracket : ∀ l : List Char, skipSpaces ('[' :: l) = '[' :: l := fun _ => rfl
    rw [htext, readValue?]
    simp only [hbracket, hstart.skipSpaces_eq]
    -- The first item does not start with the bracket that closes.
    obtain ⟨c, tail, heq, -, hc⟩ := hstart
    split
    · rename_i h
      rw [heq] at h
      exact absurd (List.cons.inj h).1 hc
    · rw [hread, limited, limitedItems_eq]
      rfl

theorem readMembers?_text {key : String} {value : Json} {members : List (String × Json)}
    (h : ∀ m ∈ (key, value) :: members, ReadBack m.2) (fuel depth : Nat) (rest : List Char)
    (hfuel : (quoted key ++ ':' :: value.text ++ membersText members).length < fuel) :
    readMembers? fuel depth (quoted key ++ ':' :: value.text ++ membersText members ++ rest) =
      some (((key, value) :: members).map fun m => (some m.1, m.2.limited depth), rest) := by
  have hquote : ∀ l : List Char, skipSpaces ('"' :: l) = '"' :: l := fun _ => rfl
  have hcolon : ∀ l : List Char, skipSpaces (':' :: l) = ':' :: l := fun _ => rfl
  have hcomma : ∀ l : List Char, skipSpaces (',' :: l) = ',' :: l := fun _ => rfl
  have hbrace : ∀ l : List Char, skipSpaces ('}' :: l) = '}' :: l := fun _ => rfl
  induction members generalizing key value fuel with
  | nil =>
    cases fuel with
    | zero => simp at hfuel
    | succ fuel =>
      have hread := h (key, value) (List.mem_cons_self ..) fuel depth ('}' :: rest)
        (by simp [membersText] at hfuel; simp; omega) (by simp [EndsNumber])
      have htext : quoted key ++ ':' :: value.text ++ membersText [] ++ rest =
          '"' :: (key.toList.flatMap escapeChar ++ '"' :: ':' :: (value.text ++ '}' :: rest)) := by
        simp [membersText, quoted]
      rw [htext, readMembers?]
      simp only [hquote, readString?_flatMap, hcolon, hread, hbrace, List.map_cons, List.map_nil]
  | cons next members ih =>
    cases fuel with
    | zero => simp at hfuel
    | succ fuel =>
      obtain ⟨key', value'⟩ := next
      have hread := h (key, value) (List.mem_cons_self ..) fuel depth
        (',' :: (quoted key' ++ ':' :: value'.text ++ membersText members ++ rest))
        (by simp [membersText] at hfuel; simp; omega) (by simp [EndsNumber])
      have hnext := @ih key' value'
        (fun m hm => h m (List.mem_cons_of_mem _ hm)) fuel
        (by simp [membersText] at hfuel; simp; omega)
      have htext : quoted key ++ ':' :: value.text ++ membersText ((key', value') :: members) ++ rest =
          '"' :: (key.toList.flatMap escapeChar ++ '"' :: ':' :: (value.text ++ ',' ::
            (quoted key' ++ ':' :: value'.text ++ membersText members ++ rest))) := by
        simp [membersText, quoted]
      rw [htext, readMembers?]
      simp only [hquote, readString?_flatMap, hcolon, hread, hcomma, hnext, Option.map_some,
        List.map_cons]

theorem ofMembers_map (members : List (String × Json)) :
    ofMembers (members.map fun m => (some m.1, m.2)) = .object members := by
  have hnamed : (members.map fun m => ((some m.1, m.2) : Option String × Json)).mapM
      (fun m => m.1.map fun key => (key, m.2)) = some members := by
    induction members with
    | nil => rfl
    | cons m members ih => simp [ih]
  exact congrArg (Option.elim · Json.unreadable Json.object) hnamed

theorem readBack_object {members : List (String × Json)} (h : ∀ m ∈ members, ReadBack m.2) :
    ReadBack (.object members) := by
  apply ReadBack.of_succ
  intro fuel depth rest hfuel _
  cases members with
  | nil => rfl
  | cons m members =>
    obtain ⟨key, value⟩ := m
    have hread := readMembers?_text h fuel (depth - 1) rest (by simp [text] at hfuel; simp; omega)
    have htext : (Json.object ((key, value) :: members)).text ++ rest =
        '{' :: (quoted key ++ ':' :: value.text ++ membersText members ++ rest) := by
      simp [text]
    obtain ⟨tail, htail⟩ : ∃ tail, quoted key ++ ':' :: value.text ++ membersText members ++ rest =
      '"' :: tail := ⟨_, rfl⟩
    have hvalue : readValue? (fuel + 1) depth ('{' :: '"' :: tail) =
        (readMembers? fuel (depth - 1) ('"' :: tail)).map fun read =>
          (bracketed depth (ofMembers read.1), read.2) := rfl
    have hmembers : ((key, value) :: members).map (fun m => (some m.1, m.2.limited (depth - 1))) =
        (limitedMembers (depth - 1) ((key, value) :: members)).map fun m => (some m.1, m.2) := by
      rw [limitedMembers_eq, List.map_map]
      rfl
    rw [htail] at hread htext
    rw [htext, hvalue, hread, Option.map_some, hmembers, ofMembers_map, limited]

/-- A value is read back from its text, but for what is nested too deep, and the text ends where it
does. -/
theorem readValue?_text {j : Json} (h : j.Exact) : ReadBack j := by
  induction h with
  | null => exact ReadBack.of_succ fun _ _ _ _ _ => rfl
  | bool b => exact ReadBack.of_succ fun _ _ _ _ _ => by cases b <;> rfl
  | integer hlow hhigh => exact readBack_integer hlow hhigh
  | string s => exact readBack_string s
  | array h ih => exact readBack_array fun j hj => ⟨(h j hj).startsValue, ih j hj⟩
  | object _ ih => exact readBack_object ih

theorem Exact.isReadable {j : Json} (h : j.Exact) : j.isReadable = true := by
  induction h with
  | null | bool | integer | string => rfl
  | @array items _ ih =>
    have hitems : ∀ items : List Json, (∀ j ∈ items, j.isReadable = true) →
        itemsReadable items = true := by
      intro items
      induction items with
      | nil => exact fun _ => rfl
      | cons item items ihitems =>
        intro h
        rw [itemsReadable, h item (List.mem_cons_self ..),
          ihitems fun j hj => h j (List.mem_cons_of_mem _ hj)]
        rfl
    exact hitems items ih
  | @object members _ ih =>
    have hmembers : ∀ members : List (String × Json), (∀ m ∈ members, m.2.isReadable = true) →
        membersReadable members = true := by
      intro members
      induction members with
      | nil => exact fun _ => rfl
      | cons m members ihmembers =>
        intro h
        rw [membersReadable, h m (List.mem_cons_self ..),
          ihmembers fun m hm => h m (List.mem_cons_of_mem _ hm)]
        rfl
    exact hmembers members ih

/-- What may be left of a value is read from its whole text. -/
theorem scan?_text {j : Json} (h : j.Exact) : scan? j.text = some (j.limited nestingLimit) := by
  have hread := readValue?_text h (j.text.length + 1) nestingLimit [] (Nat.lt_succ_self _)
    (by simp [EndsNumber])
  rw [List.append_nil] at hread
  have hskip : skipSpaces ([] : List Char) = [] := rfl
  simp [scan?, hread, hskip]

/-- A whole text gives the value that it was written for exactly if its brackets nest no deeper than
the limit, and none else. -/
theorem parse?_text {j : Json} (h : j.Exact) :
    parse? j.text = if j.depth ≤ nestingLimit then some j else none := by
  have hreadable := isReadable_limited nestingLimit h.isReadable
  rw [parse?, scan?_text h, Option.filter_some]
  by_cases hdepth : j.depth ≤ nestingLimit
  · rw [if_pos (hreadable.mpr hdepth), if_pos hdepth, limited_of_depth_le hdepth]
  · rw [if_neg (mt hreadable.mp hdepth), if_neg hdepth]

/-- Different values have different texts, however deep brackets nest in them. -/
theorem text_inj {j j' : Json} (hj : j.Exact) (hj' : j'.Exact) (h : j.text = j'.text) : j = j' := by
  -- A reader without the limit reads both texts; it may open as many brackets as either nests.
  have hread := readValue?_text hj (j.text.length + 1) (max j.depth j'.depth) []
    (Nat.lt_succ_self _) (by simp [EndsNumber])
  have hread' := readValue?_text hj' (j.text.length + 1) (max j.depth j'.depth) []
    (h ▸ Nat.lt_succ_self _) (by simp [EndsNumber])
  rw [← h, hread, limited_of_depth_le (Nat.le_max_left ..),
    limited_of_depth_le (Nat.le_max_right ..)] at hread'
  exact (Prod.mk.inj (Option.some.inj hread')).1

end Json

end Dataflow
