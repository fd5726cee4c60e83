import Ostinato.Proofs.Part.Grammar
import Ostinato.Proofs.Score.Failure

/-!
# Values that are duration codes

Any value may stand where a duration code is asked for, and is taken as the code that its text
spells. So a value could become a code by accident, but none does. A code has two characters at
most, and these are of six (`plain_of_mem_codeChars`). The text of a double has a zero, an exponent
or something on both sides of its point (`Decimal.chars_not_mem_codeChars`), and that of null, a
boolean, a list or a mapping starts with a character that no code has. The main result is
`lengthOf_of_simple`.
-/

namespace Ostinato

variable {pool : Pool} {v : Value} {code : Text} {length : Rat}

/-! ## Codes as characters -/

/-- The characters of the codes of the table. -/
def codeChars : List (List Char) := [['2'], ['4'], ['4', '.'], ['8'], ['8', '.'], ['1', '6']]

/-- The codes of the table by their characters, with their lengths in seconds. -/
theorem durationTable_eq : durationTable = [(.ofChars ['2'], 2), (.ofChars ['4'], 1),
    (.ofChars ['4', '.'], 3 / 2), (.ofChars ['8'], 1 / 2), (.ofChars ['8', '.'], 3 / 4),
    (.ofChars ['1', '6'], 1 / 4)] := by
  cbv

/-- The codes are made of their characters. -/
theorem durationCodes_eq : durationCodes = codeChars.map Text.ofChars := by
  rw [durationCodes, durationTable_eq]
  rfl

/-- Different characters make different texts. -/
theorem ofChars_injective : Function.Injective Text.ofChars :=
  Function.LeftInverse.injective Text.chars_ofChars

/-- Characters make a code just if they are those of one. -/
theorem ofChars_mem_durationCodes_iff {cs : List Char} :
    Text.ofChars cs ∈ durationCodes ↔ cs ∈ codeChars := by
  rw [durationCodes_eq, List.mem_map_of_injective ofChars_injective]

/-- A text has a length just if the table says so. -/
theorem codeLength?_eq_some_iff : codeLength? code = some length ↔ (code, length) ∈ durationTable :=
  lookup_eq_some_iff_mem (by decide)

/-- Codes are short and made of few characters. -/
theorem plain_of_mem_codeChars {cs : List Char} (h : cs ∈ codeChars) :
    cs.length ≤ 2 ∧ ∀ c ∈ cs, c ∈ ['1', '2', '4', '6', '8', '.'] := by
  revert cs
  simp [codeChars]

/-- What has a character that no code has is no code. -/
theorem not_mem_codeChars_of_mem {c : Char} {cs : List Char} (hc : c ∈ cs)
    (hstrange : c ∉ ['1', '2', '4', '6', '8', '.']) : cs ∉ codeChars := fun h =>
  hstrange ((plain_of_mem_codeChars h).2 c hc)

/-- What has more than two characters is no code. -/
theorem not_mem_codeChars_of_length {cs : List Char} (h : 2 < cs.length) : cs ∉ codeChars :=
  fun hcode => absurd (plain_of_mem_codeChars hcode).1 (Nat.not_le.mpr h)

/-! ## Numbers -/

/-- A number is told from others by its digits. -/
theorem toDigits_inj {m n : Nat} (h : Nat.toDigits 10 m = Nat.toDigits 10 n) : m = n := by
  have hread := congrArg (Nat.ofDigitChars 10 · 0) h
  simpa only [Nat.ofDigitChars_ten_toDigits] using hread

/-- An integer is spelled with a sign in front or with digits alone. -/
theorem isDigit_of_mem_integerChars {i : Int} {c : Char} (h : c ∈ integerChars i) :
    c = '-' ∧ i < 0 ∨ c.isDigit = true := by
  have hdigit : ∀ c ∈ Nat.toDigits 10 i.natAbs, c.isDigit = true := fun c hc =>
    Nat.isDigit_of_mem_toDigits (by decide) (by decide) hc
  rw [integerChars] at h
  split at h
  next hneg => exact (List.mem_cons.mp h).imp (⟨·, hneg⟩) (hdigit c)
  next => exact .inr (hdigit c h)

/-- Only one integer is spelled by the digits of a number. -/
theorem integerChars_eq_iff {i : Int} {n : Nat} : integerChars i = Nat.toDigits 10 n ↔ i = n := by
  rw [integerChars]
  split
  next hneg =>
    refine ⟨fun h => ?_, fun h => absurd hneg (by omega)⟩
    have hsign : '-' ∈ Nat.toDigits 10 n := h ▸ List.mem_cons_self
    exact absurd (Nat.isDigit_of_mem_toDigits (by decide) (by decide) hsign) (by decide)
  next hneg =>
    refine ⟨fun h => ?_, fun h => by rw [h, Int.natAbs_natCast]⟩
    have habs := toDigits_inj h
    omega

/-- A decimal is spelled with a zero, with an exponent, or with something around its point. -/
theorem Decimal.chars_not_mem_codeChars (d : Decimal) : d.chars ∉ codeChars := by
  unfold Decimal.chars
  split
  next =>
    split
    next => exact not_mem_codeChars_of_mem List.mem_cons_self (by decide)
    next hpoint =>
      dsimp only
      split
      next =>
        have hzero : '0' ∈ ['.', '0'] := by decide
        exact not_mem_codeChars_of_mem (List.mem_append_right _ hzero) (by decide)
      next hfraction =>
        -- a digit at least stands before the point, and one behind it
        rw [List.isEmpty_iff, List.drop_eq_nil_iff] at hfraction
        refine not_mem_codeChars_of_length ?_
        rw [List.length_append, List.length_cons, List.length_take, List.length_drop]
        omega
  next => exact not_mem_codeChars_of_mem (List.mem_append_right _ List.mem_cons_self) (by decide)

/-- The text of a double is no code. -/
theorem Binary64.chars_not_mem_codeChars (x : Binary64) : x.chars ∉ codeChars := by
  cases x with
  | nan => decide
  | infinite negative => cases negative <;> decide
  | finite negative m e =>
    rw [Binary64.chars]
    cases negative with
    | false => exact Decimal.chars_not_mem_codeChars _
    | true => exact not_mem_codeChars_of_mem List.mem_cons_self (by decide)

/-! ## Values -/

/-- The lengths that values stand for: four integers do, and the codes of the table. -/
inductive Names : Value → Rat → Prop
  | two : Names (.int 2) 2
  | four : Names (.int 4) 1
  | eight : Names (.int 8) (1 / 2)
  | sixteen : Names (.int 16) (1 / 4)
  | text {code : Text} {length : Rat} (h : (code, length) ∈ durationTable) :
    Names (.text code) length

/-- The values that stand for no length, whatever they hold. -/
inductive Codeless : Value → Prop
  | null : Codeless .null
  | bool (b : Bool) : Codeless (.bool b)
  | float (x : Binary64) : Codeless (.float x)
  | list (items : List Value) : Codeless (.list items)
  | dict (entries : List (Value × Value)) : Codeless (.dict entries)

/-- What spells no code names no length. -/
theorem Codeless.not_names (h : Codeless v) (length : Rat) : ¬ Names v length := by
  cases h <;> rintro ⟨⟩

/-- Codes are taken from values that stand for themselves. -/
theorem Names.resolve_eq (h : Names v length) : pool.resolve v = v := by
  cases h <;> rfl

/-- The text of a value without a code is no code, whatever the texts of the values in it are. -/
theorem Codeless.not_mem_codeChars (h : Codeless v)
    {inner : Value → Except Unwritable (List Char)} {room : Nat} {cs : List Char}
    (hcs : v.quotedWith inner room = .ok cs) : cs ∉ codeChars := by
  cases h with
  | null =>
    cases hcs
    decide
  | bool b =>
    cases b <;> cases hcs <;> decide
  | float x =>
    cases hcs
    exact x.chars_not_mem_codeChars
  | list items =>
    rw [Value.quotedWith] at hcs
    obtain ⟨pieces, -, hpieces⟩ := bind_eq_ok_iff.mp hcs
    cases hpieces
    exact not_mem_codeChars_of_mem List.mem_cons_self (by decide)
  | dict entries =>
    rw [Value.quotedWith] at hcs
    obtain ⟨pieces, -, hpieces⟩ := bind_eq_ok_iff.mp hcs
    cases hpieces
    exact not_mem_codeChars_of_mem List.mem_cons_self (by decide)

/-! ## The code of a value -/

/-- A text that is made of a string is made of its characters. -/
theorem ofString_ofList (cs : List Char) : Text.ofString (String.ofList cs) = .ofChars cs := by
  rw [Text.ofString, String.toList_ofList]

/-- A value without a code is taken as its unambiguous text, also where it is referred to. -/
theorem Codeless.exists_chars (h : Codeless (pool.resolve v))
    (hcode : durationCode pool v = .ok code) :
    ∃ inner room cs, (pool.resolve v).quotedWith inner room = .ok cs ∧ code = .ofChars cs := by
  have hquoted : (v.quoted pool).map Text.ofString = .ok code := by
    cases v with
    | text | date | moment => cases h
    | _ => exact hcode
  obtain ⟨_, hstring, rfl⟩ := map_eq_ok_iff.mp hquoted
  obtain ⟨cs, hcs, rfl⟩ := map_eq_ok_iff.mp hstring
  obtain ⟨n, hn, -⟩ | ⟨path, -, hwritten⟩ := Value.quotedWithin_succ pool pool.room [] v
  · cases hn
  · rw [hwritten] at hcs
    exact ⟨_, _, cs, hcs, ofString_ofList cs⟩

/-- What spells no code has a text without a length. -/
theorem Codeless.codeLength?_eq_none (h : Codeless (pool.resolve v))
    (hcode : durationCode pool v = .ok code) : codeLength? code = none := by
  obtain ⟨inner, room, cs, hcs, rfl⟩ := h.exists_chars hcode
  rw [codeLength?_eq_none_iff, ofChars_mem_durationCodes_iff]
  exact h.not_mem_codeChars hcs

/-- An integer that is not too long has its digits for its code. -/
theorem durationCode_int {i : Int} (hi : i.natAbs < Nat.pow 10 Text.maxDigits) :
    durationCode pool (.int i) = .ok (.ofChars (integerChars i)) := by
  have hwritten : (Value.int i).quotedWithin pool (pool.room + 1) [] = .ok (integerChars i) := by
    rw [Value.quotedWithin, Value.quotedWith, writtenInteger, if_neg (Nat.not_le.mpr hi)]
    rintro n ⟨⟩
  show (((Value.int i).quotedWithin pool (pool.room + 1) []).map String.ofList).map Text.ofString
    = _
  rw [hwritten]
  exact congrArg Except.ok (ofString_ofList _)

/-- An integer spells a code just if it is one of four. -/
theorem ofChars_integerChars_mem_iff {i : Int} :
    (Text.ofChars (integerChars i), length) ∈ durationTable ↔ Names (.int i) length := by
  have hdigits : ∀ (n : Nat) (cs : List Char), Nat.toDigits 10 n = cs →
      (Text.ofChars (integerChars i) = .ofChars cs ↔ i = n) := by
    rintro n _ rfl
    rw [ofChars_injective.eq_iff, integerChars_eq_iff]
  have hdotted : ∀ cs : List Char, '.' ∈ cs → Text.ofChars (integerChars i) ≠ .ofChars cs := by
    intro cs hpoint heq
    rw [← ofChars_injective heq] at hpoint
    obtain ⟨hsign, -⟩ | hdigit := isDigit_of_mem_integerChars hpoint
    · exact absurd hsign (by decide)
    · exact absurd hdigit (by decide)
  rw [durationTable_eq]
  simp only [List.mem_cons, Prod.mk.injEq, List.not_mem_nil, or_false]
  rw [hdigits 2 ['2'] (by decide), hdigits 4 ['4'] (by decide), hdigits 8 ['8'] (by decide),
    hdigits 16 ['1', '6'] (by decide), eq_false (hdotted ['4', '.'] (by decide)),
    eq_false (hdotted ['8', '.'] (by decide))]
  constructor
  · rintro (⟨rfl, rfl⟩ | ⟨rfl, rfl⟩ | ⟨⟨⟩, -⟩ | ⟨rfl, rfl⟩ | ⟨⟨⟩, -⟩ | ⟨rfl, rfl⟩)
    exacts [.two, .four, .eight, .sixteen]
  · rintro (_ | _ | _ | _) <;> simp

/-- A text names the length that the table gives it. -/
theorem mem_durationTable_iff_names :
    (code, length) ∈ durationTable ↔ Names (.text code) length :=
  ⟨.text, fun h => by cases h with | text hcode => exact hcode⟩

/-! ## Simple values -/

/-- A simple value with room for its text has a code, which has a length just if the value names
it. -/
theorem Value.Simple.exists_code (h : v.Simple pool (pool.room + 1)) :
    ∃ code, durationCode pool v = .ok code ∧
      ∀ length, codeLength? code = some length ↔ Names v length := by
  obtain ⟨code, hcode⟩ := h.exists_durationCode
  have hcodeless : Codeless (pool.resolve v) → ∃ code, durationCode pool v = .ok code ∧
      ∀ length, codeLength? code = some length ↔ Names v length := by
    intro hv
    refine ⟨code, hcode, fun length => ?_⟩
    rw [hv.codeLength?_eq_none hcode]
    have hnot : ¬ Names v length := fun hnames =>
      (hnames.resolve_eq ▸ hv : Codeless v).not_names length hnames
    simp [hnot]
  cases h with
  | null => exact hcodeless .null
  | bool b => exact hcodeless (.bool b)
  | float x => exact hcodeless (.float x)
  | list hv => exact hcodeless (hv ▸ .list _)
  | dict hv => exact hcodeless (hv ▸ .dict _)
  | int hi =>
    refine ⟨_, durationCode_int hi, fun length => ?_⟩
    rw [codeLength?_eq_some_iff, ofChars_integerChars_mem_iff]
  | text t =>
    refine ⟨t, rfl, fun length => ?_⟩
    rw [codeLength?_eq_some_iff, mem_durationTable_iff_names]

/-- The length of a value with a code is that of the code, and the value is unknown if the code has
none. -/
theorem lengthOf_eq_of_durationCode (h : durationCode pool v = .ok code) :
    lengthOf pool v = match codeLength? code with
      | some length => .ok length
      | none => .error (.unknown ⟨v⟩) := by
  cases hlength : codeLength? code <;> simp only [lengthOf, h, hlength]

/-- If there is no room for the text of a simple value, it has no length, for that reason. -/
theorem Value.Simple.lengthOf_eq_error {levels : Nat} (h : v.Simple pool levels)
    (hdeep : ¬ v.Simple pool (pool.room + 1)) :
    lengthOf pool v = .error (.unwritable .tooDeep) := by
  rw [lengthOf, h.durationCode_eq_error hdeep]

/-! ## Slots -/

/-- A slot has the code of the value under its duration. -/
theorem Slot.durationCode_of_ofValue {entries : List (Value × Value)} {s : Slot}
    (h : Slot.ofValue pool (.dict entries) = .ok s)
    (hv : Value.lookup "duration" entries = some v) : durationCode pool v = .ok s.duration := by
  rw [Slot.ofValue_of_dict rfl] at h
  obtain ⟨⟨code, pitch, pitches⟩, hfields, hsound⟩ := Checked.andThen_eq_ok_iff.mp h
  obtain ⟨sound, -, rfl⟩ := map_eq_ok_iff.mp hsound
  obtain ⟨_, _, hduration, -, hfield⟩ := Checked.both_eq_ok_iff.mp hfields
  cases hfield
  obtain ⟨duration, hlookup, hcode⟩ := Value.required_eq_ok_iff.mp hduration
  cases hv.symm.trans hlookup
  obtain rfl | ⟨-, hcode'⟩ := Slot.durationCode_of_asDuration hcode
  · rfl
  · exact hcode'

/-- Whatever has a code can be the duration of a slot. -/
theorem Slot.ofValue_single (h : durationCode pool v = .ok code) (token : Text) :
    Slot.ofValue pool (.dict [(.text "duration", v), (.text "pitch", .text token)])
      = .ok ⟨code, .single token⟩ := by
  have hcode : Slot.asDuration pool v = .ok code := by rw [Slot.asDuration, h]
  rw [Slot.ofValue_of_dict rfl]
  refine Checked.andThen_eq_ok_iff.mpr ⟨(code, some token, none), ?_, rfl⟩
  exact Checked.both_eq_ok_iff.mpr
    ⟨code, (some token, none), Value.required_eq_ok_iff.mpr ⟨v, rfl, hcode⟩, rfl, rfl⟩

/-- The length of a slot is that of its code. -/
theorem Slot.length_eq_lengthOf (pool : Pool) (s : Slot) :
    lengthOf pool (.text s.duration) = s.length.mapError .unknown := by
  have hcode : durationCode pool (.text s.duration) = .ok s.duration := rfl
  rw [lengthOf_eq_of_durationCode hcode, Slot.length]
  cases codeLength? s.duration <;> rfl

/-- A slot is refused for a duration that is nested too deeply. -/
theorem Slot.exists_error_of_tooDeep {levels : Nat} (hv : v.Simple pool levels)
    (hdeep : ¬ v.Simple pool (pool.room + 1)) {entries : List (Value × Value)}
    (hlookup : Value.lookup "duration" entries = some v) :
    ∃ issues, Slot.ofValue pool (.dict entries) = .error issues ∧
      Descriptor.isTooDeep issues = true := by
  have hduration : Slot.asDuration pool v = Checked.refuse (.unwritable .tooDeep) := by
    rw [Slot.asDuration, hv.durationCode_eq_error hdeep]
  exact Checked.exists_error_of_tooDeep
    (Slot.exists_tooDeep_of_asDuration rfl hlookup hduration)

/-- A simple value with room for its text has a length just if it is one of four integers or a code
of the table, and is else named as unknown. To take it as a code twice is to do it once. A slot can
be read with it as its duration, where there is room for that too, and has then the same length, or
both are unknown. A simple value without such room has no code and no length, and no slot is read
with it. Null, booleans, doubles, lists and mappings are never taken as a code of the table,
whatever is in them. -/
theorem lengthOf_of_simple :
    (∀ pool v levels, Value.Simple pool levels v →
      (v.Simple pool (pool.room + 1) →
        (∀ length, lengthOf pool v = .ok length ↔ Names v length) ∧
        (∀ fault, lengthOf pool v = .error fault ↔
          (∀ length, ¬ Names v length) ∧ fault = .unknown ⟨v⟩) ∧
        (∃ code, durationCode pool v = .ok code ∧ durationCode pool (.text code) = .ok code) ∧
        ∀ pool', v.Simple pool' (pool'.room + 1) →
          (∀ token, ∃ s, Slot.ofValue pool'
            (.dict [(.text "duration", v), (.text "pitch", .text token)]) = .ok s) ∧
          ∀ entries s, Value.lookup "duration" entries = some v →
            Slot.ofValue pool' (.dict entries) = .ok s →
            (∃ length, lengthOf pool v = .ok length ∧ s.length = .ok length) ∨
              lengthOf pool v = .error (.unknown ⟨v⟩) ∧
                s.length = .error ⟨.text s.duration⟩) ∧
      (¬ v.Simple pool (pool.room + 1) →
        durationCode pool v = .error .tooDeep ∧
        lengthOf pool v = .error (.unwritable .tooDeep) ∧
        ∀ entries, Value.lookup "duration" entries = some v →
          ∃ issues, Slot.ofValue pool (.dict entries) = .error issues ∧
            Descriptor.isTooDeep issues = true)) ∧
    ∀ pool v code, Codeless (pool.resolve v) → durationCode pool v = .ok code →
      code ∉ durationCodes := by
  refine ⟨fun pool v levels hv => ⟨fun hroom => ?fits, fun hdeep => ⟨hv.durationCode_eq_error hdeep,
    hv.lengthOf_eq_error hdeep, fun _ => Slot.exists_error_of_tooDeep hv hdeep⟩⟩,
    fun pool v code hv hcode => codeLength?_eq_none_iff.mp (hv.codeLength?_eq_none hcode)⟩
  obtain ⟨code, hcode, hnames⟩ := hroom.exists_code
  have hlength := lengthOf_eq_of_durationCode hcode
  refine ⟨fun length => ?length, fun fault => ?fault, ⟨code, hcode, rfl⟩,
    fun pool' hroom' => ?slot⟩
  case length =>
    rw [hlength, ← hnames]
    cases codeLength? code <;> simp
  case fault =>
    simp only [hlength, ← hnames]
    cases codeLength? code <;> simp [eq_comm]
  case slot =>
    obtain ⟨code', hcode', hnames'⟩ := hroom'.exists_code
    refine ⟨fun token => ⟨_, Slot.ofValue_single hcode' token⟩, fun entries s hlookup hs => ?_⟩
    obtain rfl : code' = s.duration :=
      Except.ok.inj (hcode'.symm.trans (Slot.durationCode_of_ofValue hs hlookup))
    have hsame : codeLength? s.duration = codeLength? code :=
      Option.ext fun length => by rw [hnames, hnames']
    rw [Slot.length, hlength, hsame]
    cases codeLength? code with
    | none => exact .inr ⟨rfl, rfl⟩
    | some length => exact .inl ⟨length, rfl, rfl⟩

/-- Eight is an eighth note as an integer, and nothing as a double or in a list. In a thousand lists
it is not even that. -/
theorem lengthOf_of_simple_eights :
    let eight : Binary64 := .finite false (2 ^ 52) (-49)
    lengthOf .empty (.int 8) = .ok (1 / 2) ∧
    lengthOf .empty (.float eight) = .error (.unknown ⟨.float eight⟩) ∧
    (∃ code, durationCode .empty (.float eight) = .ok code ∧ code.chars = ['8', '.', '0'] ∧
      code ∉ durationCodes) ∧
    lengthOf .empty (.list [.int 8]) = .error (.unknown ⟨.list [.int 8]⟩) ∧
    lengthOf .empty (.nested 1000) = .error (.unwritable .tooDeep) ∧
    ∃ s, Slot.ofValue .empty (.dict [(.text "duration", .int 8), (.text "pitch", .text "c4")])
      = .ok s ∧ s.length = .ok (1 / 2) := by
  intro eight
  obtain ⟨hsimple, hcodeless⟩ := lengthOf_of_simple
  have hdigits : ∀ n, 1 ≤ n → (8 : Int).natAbs < Nat.pow 10 n := fun n hn =>
    lt_of_lt_of_le (by decide : 8 < 10 ^ 1) (Nat.pow_le_pow_right (by decide) hn)
  have hsmall : ∀ levels, Value.Simple .empty (levels + 1) (.int 8) := fun _ =>
    .int (hdigits Text.maxDigits (by decide))
  have hsingle : Value.Simple .empty (maxDepth + 1) (.list [.int 8]) :=
    .list rfl (List.forall_mem_singleton.mpr (hsmall 979))
  obtain ⟨hint, -, -, hslots⟩ := (hsimple _ _ _ (hsmall 0)).1 (hsmall maxDepth)
  obtain ⟨-, hfloat, -⟩ := (hsimple .empty _ 1 (.float eight)).1 (.float eight)
  obtain ⟨-, hlist, -⟩ := (hsimple _ _ _ hsingle).1 hsingle
  obtain ⟨-, hdeep, -⟩ := (hsimple .empty (.nested 1000) 1001
    (Value.simple_nested_iff.mpr (by decide))).2 (mt Value.simple_nested_iff.mp (by decide))
  obtain ⟨hslot, hlength⟩ := hslots .empty (hsmall maxDepth)
  have hchars : eight.chars = ['8', '.', '0'] := by decide +kernel
  have hcode : durationCode .empty (.float eight) = .ok (.ofString (.ofList eight.chars)) := rfl
  rw [hchars, ofString_ofList] at hcode
  have hint' := (hint _).mpr .eight
  refine ⟨hint', (hfloat _).mpr ⟨Codeless.not_names (.float _), rfl⟩,
    ⟨_, hcode, Text.chars_ofChars _, hcodeless .empty (.float eight) _ (.float eight) hcode⟩,
    (hlist _).mpr ⟨Codeless.not_names (.list _), rfl⟩, hdeep, ?_⟩
  obtain ⟨s, hs⟩ := hslot "c4"
  obtain ⟨length, hfirst, hsame⟩ | ⟨hfailed, -⟩ := hlength _ s rfl hs
  · cases hint'.symm.trans hfirst
    exact ⟨s, hs, hsame⟩
  · rw [hint'] at hfailed
    cases hfailed

/-- Not every simple value has a length or is named as unknown. -/
theorem not_forall_lengthOf_of_nested :
    ¬ ∀ (v : Value) (levels : Nat), v.Simple .empty levels →
      (∃ length, lengthOf .empty v = .ok length) ∨
        lengthOf .empty v = .error (.unknown ⟨v⟩) := by
  intro h
  have hsimple : (Value.nested 1000).Simple .empty 1001 := Value.simple_nested_iff.mpr (by decide)
  have hdeep := hsimple.lengthOf_eq_error (mt Value.simple_nested_iff.mp (by decide))
  obtain ⟨length, hlength⟩ | hunknown := h _ _ hsimple
  · rw [hdeep] at hlength
    cases hlength
  · rw [hdeep] at hunknown
    cases hunknown

end Ostinato
