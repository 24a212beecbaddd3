import Motus.Foundation.Numerals
import Motus.Transport.Seam

set_option autoImplicit false

/-!
# Hex dumps (`src/Logger.cpp`)

`hexDump` writes sixteen bytes a line: the offset, the bytes in hex and the printable
characters.  It stops after `maxBytes` and says how many bytes there are beyond.

A dump determines the bytes it shows and how many there are beyond, and whatever the data
it is made of printable characters and line breaks.
-/

namespace Motus.Logger

open Motus.Foundation Motus.Transport

/-- How many bytes a line shows. -/
def kPerLine : Nat := 16

/-- `std::isprint`, in the C locale. -/
def isprint (c : UInt8) : Bool := decide (0x20 ≤ c.toNat ∧ c.toNat ≤ 0x7e)

/-- Two hexadecimal digits and a space. -/
def hexByte (c : UInt8) : List Char := field 16 2 c.toNat ++ [' ']

/-- The hex columns of a line that has so many left, padded after the last byte. -/
def hexColumns : Nat → Bytes → List Char
  | 0, _ => []
  | n + 1, [] => "   ".toList ++ hexColumns n []
  | n + 1, c :: rest => hexByte c ++ hexColumns n rest

/-- The character that stands for a byte in the column on the right. -/
def printed (c : UInt8) : Char := if isprint c then Char.ofNat c.toNat else '.'

/-- One line of a dump, for the bytes from `offset` on. -/
def dumpLine (offset : Nat) (line : Bytes) : List Char :=
  "\n  ".toList ++ field 16 4 offset ++ "  ".toList ++ hexColumns kPerLine line ++
    " |".toList ++ line.map printed ++ "|".toList

/-- The lines of a dump. -/
def dumpLines (offset : Nat) (bytes : Bytes) : List Char :=
  if bytes = [] then []
  else dumpLine offset (bytes.take kPerLine) ++
    dumpLines (offset + kPerLine) (bytes.drop kPerLine)
termination_by bytes.length
decreasing_by
  rw [List.length_drop]
  have := List.length_pos_iff.mpr ‹bytes ≠ []›
  unfold kPerLine
  omega

/-- The last line of a dump that leaves out `more` bytes. -/
def dumpRest (more : Nat) : List Char :=
  if 0 < more then "\n  ... ".toList ++ numeral 10 more ++ " more byte(s)".toList else []

/-- `hexDump`; no data is a null pointer. -/
def hexDump (data : Option Bytes) (maxBytes : Nat) : List Char :=
  match data with
  | none => "(empty)".toList
  | some bytes =>
      if bytes = [] then "(empty)".toList
      else dumpLines 0 (bytes.take (min bytes.length maxBytes)) ++
        dumpRest (bytes.length - min bytes.length maxBytes)

/-! ## What can be read off a dump -/

/-- A field begins with a digit. -/
theorem field_eq_cons {width : Nat} (hwidth : 0 < width) (n : Nat) :
    ∃ first digits, field 16 width n = first :: digits ∧ IsDigit first := by
  obtain ⟨first, digits, hfield⟩ :=
    List.exists_cons_of_length_pos (hwidth.trans_le (le_length_field 16 width n))
  have hmem : first ∈ field 16 width n := by
    rw [hfield]
    exact List.mem_cons_self
  exact ⟨first, digits, hfield, isDigit_of_mem_field (by decide) le_rfl hmem⟩

theorem hexByte_ne_blank (c : UInt8) (rest rest' : List Char) :
    hexByte c ++ rest ≠ "   ".toList ++ rest' := by
  obtain ⟨first, digits, hfield, hdigit⟩ := field_eq_cons Nat.zero_lt_two c.toNat
  intro h
  unfold hexByte at h
  rw [hfield] at h
  have hspace : first = ' ' := (List.cons.inj h).1
  exact hdigit.ne (by decide) hspace

theorem length_hexByte (c : UInt8) : (hexByte c).length = 3 := by
  have hfield : (field 16 2 c.toNat).length = 2 := length_field (by decide) c.toNat_lt
  rw [hexByte, List.length_append, hfield]
  rfl

theorem hexByte_append_inj {c c' : UInt8} {rest rest' : List Char}
    (h : hexByte c ++ rest = hexByte c' ++ rest') : c = c' ∧ rest = rest' := by
  obtain ⟨hbyte, hrest⟩ := List.append_inj h ((length_hexByte c).trans (length_hexByte c').symm)
  have hfield := field_injective (by decide) le_rfl 2 (List.append_cancel_right hbyte)
  exact ⟨UInt8.toNat_inj.mp hfield, hrest⟩

/-- The hex columns tell the bytes of a line. -/
theorem hexColumns_append_inj {n : Nat} {bytes bytes' : Bytes} {rest rest' : List Char}
    (hbytes : bytes.length ≤ n) (hbytes' : bytes'.length ≤ n)
    (h : hexColumns n bytes ++ rest = hexColumns n bytes' ++ rest') :
    bytes = bytes' ∧ rest = rest' := by
  induction n generalizing bytes bytes' with
  | zero =>
      rw [List.length_eq_zero_iff.mp (Nat.le_zero.mp hbytes),
        List.length_eq_zero_iff.mp (Nat.le_zero.mp hbytes')] at h ⊢
      exact ⟨rfl, h⟩
  | succ n ih =>
      cases bytes with
      | nil =>
          cases bytes' with
          | nil =>
              simp only [hexColumns, List.append_assoc] at h
              exact ih (Nat.zero_le n) (Nat.zero_le n) (List.append_cancel_left h)
          | cons c' more' =>
              simp only [hexColumns, List.append_assoc] at h
              exact absurd h.symm (hexByte_ne_blank c' _ _)
      | cons c more =>
          cases bytes' with
          | nil =>
              simp only [hexColumns, List.append_assoc] at h
              exact absurd h (hexByte_ne_blank c _ _)
          | cons c' more' =>
              simp only [hexColumns, List.append_assoc] at h
              obtain ⟨rfl, hmore⟩ := hexByte_append_inj h
              obtain ⟨rfl, hrest⟩ :=
                ih (Nat.le_of_succ_le_succ hbytes) (Nat.le_of_succ_le_succ hbytes') hmore
              exact ⟨rfl, hrest⟩

/-- A line of bytes is not mistaken for the last one. -/
theorem dumpLine_ne_dumpRest (offset more : Nat) (line : Bytes) (rest : List Char) :
    dumpLine offset line ++ rest ≠ dumpRest more := by
  obtain ⟨first, digits, hfield, hdigit⟩ := field_eq_cons (Nat.succ_pos 3) offset
  intro h
  unfold dumpLine dumpRest at h
  rw [hfield] at h
  split at h
  · have hchar := congrArg (fun text : List Char => text[3]?) h
    have hdot : first = '.' := Option.some.inj hchar
    exact hdigit.ne (by decide) hdot
  · exact absurd h (by simp)

theorem dumpRest_injective : Function.Injective dumpRest := by
  intro more more' h
  unfold dumpRest at h
  split at h
  · split at h
    · simp only [List.append_assoc] at h
      have hnumeral := List.append_cancel_right (List.append_cancel_left h)
      exact numeral_injective (by decide) (by decide) hnumeral
    · exact absurd h (by simp)
  · split at h
    · exact absurd h (by simp)
    · omega

theorem dumpLines_nil (offset : Nat) : dumpLines offset [] = [] := by
  rw [dumpLines, if_pos rfl]

theorem dumpLines_of_ne_nil (offset : Nat) {bytes : Bytes} (h : bytes ≠ []) :
    dumpLines offset bytes = dumpLine offset (bytes.take kPerLine) ++
      dumpLines (offset + kPerLine) (bytes.drop kPerLine) := by
  rw [dumpLines, if_neg h]

/-- A line tells its bytes, and the next one begins where it ends. -/
theorem dumpLine_append_inj {offset : Nat} {line line' : Bytes} {rest rest' : List Char}
    (hline : line.length ≤ kPerLine) (hline' : line'.length ≤ kPerLine)
    (h : dumpLine offset line ++ rest = dumpLine offset line' ++ rest') :
    line = line' ∧ rest = rest' := by
  unfold dumpLine at h
  repeat rw [List.append_assoc] at h
  have hcolumns := List.append_cancel_left (List.append_cancel_left (List.append_cancel_left h))
  obtain ⟨rfl, hrest⟩ := hexColumns_append_inj hline hline' hcolumns
  exact ⟨rfl, List.append_cancel_left
    (List.append_cancel_left (List.append_cancel_left hrest))⟩

/-- The lines tell the bytes, and where the lines end the rest begins. -/
theorem dumpLines_append_inj (n : Nat) {offset more more' : Nat} {bytes bytes' : Bytes}
    (hbytes : bytes.length ≤ n)
    (h : dumpLines offset bytes ++ dumpRest more = dumpLines offset bytes' ++ dumpRest more') :
    bytes = bytes' ∧ more = more' := by
  induction n generalizing offset bytes bytes' with
  | zero =>
      obtain rfl := List.length_eq_zero_iff.mp (Nat.le_zero.mp hbytes)
      rw [dumpLines_nil, List.nil_append] at h
      by_cases hnil : bytes' = []
      · subst hnil
        rw [dumpLines_nil, List.nil_append] at h
        exact ⟨rfl, dumpRest_injective h⟩
      · rw [dumpLines_of_ne_nil offset hnil, List.append_assoc] at h
        exact absurd h.symm (dumpLine_ne_dumpRest _ _ _ _)
  | succ n ih =>
      by_cases hnil : bytes = []
      · subst hnil
        exact ih (Nat.zero_le n) h
      rw [dumpLines_of_ne_nil offset hnil, List.append_assoc] at h
      by_cases hnil' : bytes' = []
      · subst hnil'
        rw [dumpLines_nil, List.nil_append] at h
        exact absurd h (dumpLine_ne_dumpRest _ _ _ _)
      rw [dumpLines_of_ne_nil offset hnil', List.append_assoc] at h
      obtain ⟨hline, hrest⟩ :=
        dumpLine_append_inj (List.length_take_le _ _) (List.length_take_le _ _) h
      have hshorter : (bytes.drop kPerLine).length ≤ n := by
        rw [List.length_drop, kPerLine]
        omega
      obtain ⟨hdrop, hmore⟩ := ih hshorter hrest
      refine ⟨?_, hmore⟩
      rw [← List.take_append_drop kPerLine bytes, hline, hdrop, List.take_append_drop]

/-! ## What a dump is made of -/

/-- A line break or a printable character. -/
def IsPrintable (c : Char) : Prop := c = '\n' ∨ 0x20 ≤ c.toNat ∧ c.toNat ≤ 0x7e

instance (c : Char) : Decidable (IsPrintable c) := inferInstanceAs (Decidable (_ ∨ _))

theorem isPrintable_of_isDigit {c : Char} (h : IsDigit c) : IsPrintable c := by
  obtain ⟨d, hd, rfl⟩ := h
  interval_cases d <;> exact .inr (by decide)

theorem isPrintable_field {width n : Nat} : ∀ c ∈ field 16 width n, IsPrintable c :=
  fun _ hc => isPrintable_of_isDigit (isDigit_of_mem_field (by decide) le_rfl hc)

theorem isPrintable_printed (c : UInt8) : IsPrintable (printed c) := by
  unfold printed
  cases hprint : isprint c with
  | false =>
      rw [if_neg Bool.false_ne_true]
      decide
  | true =>
      have hrange := of_decide_eq_true hprint
      refine .inr ?_
      rw [if_pos rfl, Char.toNat_ofNat, if_pos (.inl (by omega))]
      exact hrange

theorem isPrintable_hexColumns (n : Nat) (bytes : Bytes) :
    ∀ c ∈ hexColumns n bytes, IsPrintable c := by
  induction n generalizing bytes with
  | zero => exact fun c hc => absurd hc List.not_mem_nil
  | succ n ih =>
      cases bytes with
      | nil => exact List.forall_mem_append.mpr ⟨by simp [IsPrintable], ih []⟩
      | cons first rest =>
          refine List.forall_mem_append.mpr ⟨?_, ih rest⟩
          exact List.forall_mem_append.mpr ⟨isPrintable_field, by simp [IsPrintable]⟩

theorem isPrintable_dumpLine (offset : Nat) (line : Bytes) :
    ∀ c ∈ dumpLine offset line, IsPrintable c := by
  unfold dumpLine
  simp only [List.forall_mem_append, List.forall_mem_map]
  exact ⟨⟨⟨⟨⟨⟨by simp [IsPrintable], isPrintable_field⟩, by simp [IsPrintable]⟩,
    isPrintable_hexColumns _ _⟩, by simp [IsPrintable]⟩, fun c _ => isPrintable_printed c⟩,
    by simp [IsPrintable]⟩

theorem isPrintable_dumpLines (n offset : Nat) (bytes : Bytes) (hbytes : bytes.length ≤ n) :
    ∀ c ∈ dumpLines offset bytes, IsPrintable c := by
  induction n generalizing offset bytes with
  | zero =>
      rw [List.length_eq_zero_iff.mp (Nat.le_zero.mp hbytes), dumpLines_nil]
      exact fun c hc => absurd hc List.not_mem_nil
  | succ n ih =>
      by_cases hnil : bytes = []
      · rw [hnil, dumpLines_nil]
        exact fun c hc => absurd hc List.not_mem_nil
      · rw [dumpLines_of_ne_nil offset hnil]
        refine List.forall_mem_append.mpr ⟨isPrintable_dumpLine _ _, ih _ _ ?_⟩
        rw [List.length_drop, kPerLine]
        omega

theorem isPrintable_dumpRest (more : Nat) : ∀ c ∈ dumpRest more, IsPrintable c := by
  unfold dumpRest
  split
  · simp only [List.forall_mem_append]
    refine ⟨⟨by simp [IsPrintable], fun c hc => ?_⟩, by simp [IsPrintable]⟩
    exact isPrintable_of_isDigit (isDigit_of_mem_numeral (by decide) (by decide) hc)
  · exact fun c hc => absurd hc List.not_mem_nil

theorem isPrintable_hexDump (data : Option Bytes) (maxBytes : Nat) :
    ∀ c ∈ hexDump data maxBytes, IsPrintable c := by
  unfold hexDump
  split
  · simp [IsPrintable]
  split
  · simp [IsPrintable]
  · exact List.forall_mem_append.mpr ⟨isPrintable_dumpLines _ _ _ le_rfl, isPrintable_dumpRest _⟩

/-- What is dumped of some data: the bytes shown and the number of those left out. -/
theorem hexDump_of_ne_nil {bytes : Bytes} (h : bytes ≠ []) (maxBytes : Nat) :
    hexDump (some bytes) maxBytes =
      dumpLines 0 (bytes.take maxBytes) ++ dumpRest (bytes.length - maxBytes) := by
  have htake : bytes.take (min bytes.length maxBytes) = bytes.take maxBytes := by
    rw [Nat.min_comm, ← List.take_eq_take_min]
  have hrest : bytes.length - min bytes.length maxBytes = bytes.length - maxBytes := by omega
  unfold hexDump
  dsimp only
  rw [if_neg h, htake, hrest]

/-- A dump does not begin as the text for no data does. -/
theorem hexDump_ne_empty {bytes : Bytes} (h : bytes ≠ []) (maxBytes : Nat) :
    hexDump (some bytes) maxBytes ≠ hexDump (some []) maxBytes := by
  have hhead : (hexDump (some bytes) maxBytes).head? = some '\n' := by
    rw [hexDump_of_ne_nil h]
    by_cases hnone : bytes.take maxBytes = []
    · have hmore : 0 < bytes.length - maxBytes := by
        have hpos := List.length_pos_iff.mpr h
        rcases List.take_eq_nil_iff.mp hnone with hzero | hnil
        · omega
        · exact absurd hnil h
      rw [hnone, dumpLines_nil, List.nil_append, dumpRest, if_pos hmore]
      rfl
    · rw [dumpLines_of_ne_nil 0 hnone]
      rfl
  have hempty : hexDump (some []) maxBytes = "(empty)".toList := rfl
  intro heq
  rw [heq, hempty] at hhead
  exact absurd hhead (by simp)

/-- A dump is text that can be printed, and it tells exactly the bytes it shows and how many
it leaves out: two dumps are equal only when both are. -/
theorem hexDump_faithful (maxBytes : Nat) :
    (∀ data, ∀ c ∈ hexDump data maxBytes, IsPrintable c) ∧
      ∀ bytes bytes' : Bytes, hexDump (some bytes) maxBytes = hexDump (some bytes') maxBytes ↔
        bytes.take maxBytes = bytes'.take maxBytes ∧
          bytes.length - maxBytes = bytes'.length - maxBytes := by
  refine ⟨fun data => isPrintable_hexDump data maxBytes, fun bytes bytes' => ?_⟩
  -- no data at all: nothing is shown and nothing left out
  have hnone : ∀ {bytes : Bytes}, bytes.take maxBytes = ([] : Bytes).take maxBytes →
      bytes.length - maxBytes = ([] : Bytes).length - maxBytes → bytes = [] := by
    intro bytes htake hmore
    rw [List.take_nil] at htake
    rw [List.length_nil, Nat.zero_sub] at hmore
    rcases List.take_eq_nil_iff.mp htake with rfl | hnil
    · exact List.length_eq_zero_iff.mp hmore
    · exact hnil
  by_cases hnil : bytes = []
  · subst hnil
    by_cases hnil' : bytes' = []
    · rw [hnil']
      exact ⟨fun _ => ⟨rfl, rfl⟩, fun _ => rfl⟩
    · exact ⟨fun heq => absurd heq.symm (hexDump_ne_empty hnil' maxBytes),
        fun heq => absurd (hnone heq.1.symm heq.2.symm) hnil'⟩
  by_cases hnil' : bytes' = []
  · subst hnil'
    exact ⟨fun heq => absurd heq (hexDump_ne_empty hnil maxBytes),
      fun heq => absurd (hnone heq.1 heq.2) hnil⟩
  rw [hexDump_of_ne_nil hnil, hexDump_of_ne_nil hnil']
  constructor
  · exact dumpLines_append_inj _ le_rfl
  · rintro ⟨htake, hmore⟩
    rw [htake, hmore]

/-- Seventeen bytes, of which sixteen are shown. -/
example : String.ofList (hexDump (some (List.replicate 17 0x41)) 16) =
    "\n  0000  41 41 41 41 41 41 41 41 41 41 41 41 41 41 41 41  |AAAAAAAAAAAAAAAA|" ++
      "\n  ... 1 more byte(s)" := by
  decide +kernel

end Motus.Logger
