import Motus.Transport.Seam

set_option autoImplicit false

/-!
# The wire format (`include/motus/ByteMessage.hpp`)

An envelope is `motus:<version>:<payload>`.  A `std::string` of bytes is the list of
its bytes.  `deserialize` is characterised for every byte string: it accepts the
envelopes whose version field has the value of this build's version, and no others.
-/

namespace Motus.Consumer

open Motus.Transport

/-- What the two directions throw, by the class of the exception and its `what()`. -/
inductive EnvelopeError where
  | lengthError (what : String)
  | runtimeError (what : String)
  deriving DecidableEq, Repr

/-- The text of the exception. -/
def EnvelopeError.what : EnvelopeError → String
  | .lengthError what | .runtimeError what => what

/-- One opaque payload. -/
structure ByteMessage where
  payload : Bytes
  deriving DecidableEq, Repr

namespace ByteMessage

/-- `FORMAT_VERSION`. -/
def formatVersion : Nat := 1

/-- `MAX_PAYLOAD_BYTES`. -/
def maxPayloadBytes : Nat := 4 * 1024 * 1024

/-- The bytes of a literal of ASCII characters. -/
def ascii (text : String) : Bytes := text.toList.map fun c => UInt8.ofNat c.toNat

/-- What every envelope begins with. -/
def magic : Bytes := ascii "motus:"

/-- `':'`. -/
def colon : UInt8 := 58

/-- What an envelope of this version begins with. -/
def envelopePrefix : Bytes := ascii ("motus:" ++ toString formatVersion ++ ":")

/-- Encode to the wire form. -/
def serialize (message : ByteMessage) : Except EnvelopeError Bytes :=
  let size := envelopePrefix.length + message.payload.length
  if maxPayloadBytes < size then
    .error (.lengthError ("encoded message is " ++ toString size ++ " bytes, over the " ++
      toString maxPayloadBytes ++ " byte limit"))
  else .ok (envelopePrefix ++ message.payload)

/-- `c` lies between `'0'` and `'9'`. -/
def isDecimal (c : UInt8) : Bool := decide (48 ≤ c) && decide (c ≤ 57)

/-- The loop over the version field, from what `version` has come to. -/
def readVersion : Bytes → Nat → Except EnvelopeError Nat
  | [], version => .ok version
  | c :: rest, version =>
      if isDecimal c = false then
        .error (.runtimeError "malformed motus envelope: non-numeric version field")
      else if 100000 < version then
        .error (.runtimeError "malformed motus envelope: version field out of range")
      else readVersion rest (version * 10 + (c.toNat - 48))

/-- Reconstruct from a wire body. -/
def deserialize (wire : Bytes) : Except EnvelopeError ByteMessage :=
  if maxPayloadBytes < wire.length then
    .error (.lengthError ("message body is " ++ toString wire.length ++ " bytes, over the " ++
      toString maxPayloadBytes ++ " byte limit"))
  else if wire.take magic.length ≠ magic then
    .error (.runtimeError "body is not a motus envelope (missing 'motus:' prefix)")
  else
    let body := wire.drop magic.length
    match body.findIdx? (· == colon) with
    | none | some 0 => .error (.runtimeError "malformed motus envelope: no version field")
    | some versionEnd =>
        match readVersion (body.take versionEnd) 0 with
        | .error e => .error e
        | .ok version =>
            if version ≠ formatVersion then
              .error (.runtimeError ("unsupported format_version " ++ toString version ++
                " (this build understands " ++ toString formatVersion ++ ")"))
            else .ok ⟨body.drop (versionEnd + 1)⟩

/-! ## Version fields -/

/-- The value of a string of decimal digits, most significant first. -/
def decimalValue (field : Bytes) : Nat :=
  Nat.ofDigits 10 (field.map fun c => c.toNat - 48).reverse

theorem decimalValue_cons (c : UInt8) (rest : Bytes) :
    decimalValue (c :: rest) = (c.toNat - 48) * 10 ^ rest.length + decimalValue rest := by
  simp only [decimalValue, List.map_cons, List.reverse_cons, Nat.ofDigits_append,
    Nat.ofDigits_singleton, List.length_reverse, List.length_map]
  ring

/-- A non-empty string of decimal digits. -/
structure IsVersionField (field : Bytes) : Prop where
  ne_nil : field ≠ []
  digits : ∀ c ∈ field, isDecimal c = true

theorem ne_colon_of_isDecimal {c : UInt8} (h : isDecimal c = true) : c ≠ colon := by
  rintro rfl
  exact absurd h (by decide)

/-- What the loop returns when it returns. -/
theorem readVersion_eq_ok {field : Bytes} {start version : Nat}
    (h : readVersion field start = .ok version) :
    (∀ c ∈ field, isDecimal c = true) ∧
      version = start * 10 ^ field.length + decimalValue field := by
  induction field generalizing start with
  | nil =>
      rw [← Except.ok.inj h]
      exact ⟨fun c hc => absurd hc List.not_mem_nil, by simp [decimalValue]⟩
  | cons c rest ih =>
      unfold readVersion at h
      split at h
      · exact absurd h (by simp)
      split at h
      · exact absurd h (by simp)
      rename_i hdigit hrange
      obtain ⟨hdigits, hvalue⟩ := ih h
      refine ⟨?_, ?_⟩
      · intro d hd
        rcases List.mem_cons.mp hd with rfl | hd
        · exact Bool.not_eq_false _ ▸ hdigit
        · exact hdigits d hd
      · rw [hvalue, decimalValue_cons, List.length_cons, pow_succ]
        ring

/-- The range check does not refuse a field of digits with a small value, however long. -/
theorem readVersion_of_le {field : Bytes} (hdigits : ∀ c ∈ field, isDecimal c = true)
    (start : Nat) (hsmall : start * 10 ^ field.length + decimalValue field ≤ 100000) :
    readVersion field start = .ok (start * 10 ^ field.length + decimalValue field) := by
  induction field generalizing start with
  | nil => simp [readVersion, decimalValue]
  | cons c rest ih =>
      have hstart : start ≤ start * 10 ^ (c :: rest).length :=
        Nat.le_mul_of_pos_right start (Nat.pow_pos (by decide))
      have hnext : start * 10 ^ (c :: rest).length + decimalValue (c :: rest) =
          (start * 10 + (c.toNat - 48)) * 10 ^ rest.length + decimalValue rest := by
        rw [decimalValue_cons, List.length_cons, pow_succ]
        ring
      unfold readVersion
      rw [if_neg (by rw [hdigits c List.mem_cons_self]; simp), if_neg (by omega), hnext]
      rw [hnext] at hsmall
      exact ih (fun d hd => hdigits d (List.mem_cons_of_mem c hd)) _ hsmall

/-- A step of the loop keeps the accumulator below this bound. -/
theorem readVersion_le {field : Bytes} {start version : Nat} (hstart : start ≤ 1000009)
    (h : readVersion field start = .ok version) : version ≤ 1000009 := by
  induction field generalizing start with
  | nil =>
      rw [← Except.ok.inj h]
      exact hstart
  | cons c rest ih =>
      unfold readVersion at h
      split at h
      · exact absurd h (by simp)
      split at h
      · exact absurd h (by simp)
      rename_i hdigit hrange
      refine ih ?_ h
      have hdecimal : c.toNat ≤ 57 := by
        simp only [isDecimal, Bool.and_eq_false_iff, decide_eq_false_iff_not, not_or, not_not] at hdigit
        exact UInt8.le_iff_toNat_le.mp hdigit.2
      omega

/-! ## Envelopes -/

/-- The envelopes that this build accepts, and what they carry. -/
structure IsEnvelope (wire payload : Bytes) : Prop where
  bounded : wire.length ≤ maxPayloadBytes
  field : ∃ version, IsVersionField version ∧ decimalValue version = formatVersion ∧
    wire = magic ++ version ++ colon :: payload

/-- The first colon of a body ends its field of digits. -/
theorem findIdx?_colon {field : Bytes} (hdigits : ∀ c ∈ field, isDecimal c = true)
    (payload : Bytes) :
    (field ++ colon :: payload).findIdx? (· == colon) = some field.length := by
  induction field with
  | nil => rfl
  | cons c rest ih =>
      have hne : (c == colon) = false := by
        rw [beq_eq_false_iff_ne]
        exact ne_colon_of_isDecimal (hdigits c List.mem_cons_self)
      rw [List.cons_append, List.findIdx?_cons, hne,
        ih fun d hd => hdigits d (List.mem_cons_of_mem c hd)]
      rfl

/-- A body that has a colon is what stands before the first one, it, and the rest. -/
theorem eq_of_findIdx? {body : Bytes} {n : Nat} (h : body.findIdx? (· == colon) = some n) :
    body = body.take n ++ colon :: body.drop (n + 1) ∧ (body.take n).length = n := by
  rw [List.findIdx?_eq_some_iff_getElem] at h
  obtain ⟨hlt, hcolon, -⟩ := h
  have heq : body[n] = colon := by simpa using hcolon
  refine ⟨?_, List.length_take_of_le (Nat.le_of_lt hlt)⟩
  conv_lhs => rw [← List.take_append_drop n body, List.drop_eq_getElem_cons hlt, heq]

/-- `deserialize` on something that looks like an envelope. -/
theorem deserialize_envelope {field payload : Bytes} (hfield : IsVersionField field)
    (hbound : (magic ++ field ++ colon :: payload).length ≤ maxPayloadBytes) :
    deserialize (magic ++ field ++ colon :: payload) =
      match readVersion field 0 with
      | .error e => .error e
      | .ok version =>
          if version ≠ formatVersion then
            .error (.runtimeError ("unsupported format_version " ++ toString version ++
              " (this build understands " ++ toString formatVersion ++ ")"))
          else .ok ⟨payload⟩ := by
  have hbody : (magic ++ field ++ colon :: payload).drop magic.length = field ++ colon :: payload := by
    rw [List.append_assoc, List.drop_left]
  have hmagic : (magic ++ field ++ colon :: payload).take magic.length = magic := by
    rw [List.append_assoc, List.take_left]
  have hpayload : (field ++ colon :: payload).drop (field.length + 1) = payload := by simp
  obtain ⟨n, hn⟩ : ∃ n, field.length = n + 1 :=
    Nat.exists_eq_succ_of_ne_zero fun h => hfield.ne_nil (List.length_eq_zero_iff.mp h)
  unfold deserialize
  rw [if_neg (Nat.not_lt.mpr hbound), if_neg (not_not.mpr hmagic)]
  simp only [hbody, findIdx?_colon hfield.digits payload, hn]
  rw [← hn, List.take_left, hpayload]

/-- What is accepted is an envelope. -/
theorem isEnvelope_of_deserialize {wire : Bytes} {message : ByteMessage}
    (h : deserialize wire = .ok message) : IsEnvelope wire message.payload := by
  unfold deserialize at h
  split at h
  · exact absurd h (by simp)
  split at h
  · exact absurd h (by simp)
  rename_i hbound hmagic
  dsimp only at h
  split at h
  · exact absurd h (by simp)
  · exact absurd h (by simp)
  rename_i n hzero hcolon
  obtain ⟨hbody, hlength⟩ := eq_of_findIdx? hcolon
  split at h
  · exact absurd h (by simp)
  rename_i version hversion
  split at h
  · exact absurd h (by simp)
  rename_i hformat
  obtain ⟨hdigits, hvalue⟩ := readVersion_eq_ok hversion
  rw [Nat.zero_mul, Nat.zero_add] at hvalue
  refine ⟨Nat.not_lt.mp hbound, _, ⟨fun hnil => ?_, hdigits⟩,
    hvalue.symm.trans (not_not.mp hformat), ?_⟩
  · rw [hnil, List.length_nil] at hlength
    exact hzero hlength.symm
  · rw [← Except.ok.inj h, List.append_assoc, ← hbody]
    conv_lhs => rw [← List.take_append_drop magic.length wire, not_not.mp hmagic]

/-- Every envelope is accepted, and only its payload comes back. -/
theorem deserialize_of_isEnvelope {wire payload : Bytes} (h : IsEnvelope wire payload) :
    deserialize wire = .ok ⟨payload⟩ := by
  obtain ⟨field, hfield, hvalue, rfl⟩ := h.field
  have hread := readVersion_of_le hfield.digits 0 (by rw [hvalue, Nat.zero_mul, Nat.zero_add]; decide)
  rw [Nat.zero_mul, Nat.zero_add, hvalue] at hread
  rw [deserialize_envelope hfield h.bounded, hread]
  exact if_neg (not_not.mpr rfl)

theorem deserialize_eq_ok_iff (wire : Bytes) (message : ByteMessage) :
    deserialize wire = .ok message ↔ IsEnvelope wire message.payload :=
  ⟨isEnvelope_of_deserialize, deserialize_of_isEnvelope⟩

theorem envelopePrefix_eq : envelopePrefix = magic ++ [49] ++ [colon] := by decide

/-- What `serialize` builds is an envelope. -/
theorem isEnvelope_serialize {message : ByteMessage} {wire : Bytes}
    (h : serialize message = .ok wire) : IsEnvelope wire message.payload := by
  unfold serialize at h
  dsimp only at h
  split at h
  · exact absurd h (by simp)
  rename_i hbound
  rw [← Except.ok.inj h]
  refine ⟨?_, [49], ⟨by simp, by simp [isDecimal]⟩, by simp [decimalValue, formatVersion], ?_⟩
  · rw [List.length_append]
    exact Nat.not_lt.mp hbound
  · rw [envelopePrefix_eq, List.append_assoc, List.singleton_append]

/-- The wire format, for every payload and every byte string: when `serialize` throws,
that the round trip loses nothing, what `deserialize` accepts, that the accumulator of
its loop stays an `int`, that its range check refuses no field with the value of
`FORMAT_VERSION`, and that every other version is refused. -/
theorem wireFormat :
    (∀ message : ByteMessage, (∃ what, serialize message = .error (.lengthError what)) ↔
      maxPayloadBytes < envelopePrefix.length + message.payload.length) ∧
    (∀ message : ByteMessage,
      envelopePrefix.length + message.payload.length ≤ maxPayloadBytes →
        ∃ wire, serialize message = .ok wire ∧ deserialize wire = .ok message) ∧
    (∀ (wire : Bytes) (message : ByteMessage), deserialize wire = .ok message ↔
      wire.length ≤ maxPayloadBytes ∧ ∃ version, IsVersionField version ∧
        decimalValue version = formatVersion ∧
        wire = magic ++ version ++ colon :: message.payload) ∧
    (∀ field version, readVersion field 0 = .ok version → version < 2 ^ 31) ∧
    (∀ field, IsVersionField field → decimalValue field = formatVersion →
      readVersion field 0 = .ok formatVersion) ∧
    ∀ field payload, IsVersionField field → decimalValue field ≠ formatVersion →
      ∃ e, deserialize (magic ++ field ++ colon :: payload) = .error e := by
  refine ⟨fun message => ?_, fun message hbound => ?_, fun wire message => ?_,
    fun field version h => ?_, fun field hfield hvalue => ?_, fun field payload hfield hvalue => ?_⟩
  · unfold serialize
    dsimp only
    split
    · rename_i hlarge
      exact ⟨fun _ => hlarge, fun _ => ⟨_, rfl⟩⟩
    · rename_i hsmall
      exact iff_of_false (by simp) hsmall
  · have hserialize : serialize message = .ok (envelopePrefix ++ message.payload) :=
      if_neg (Nat.not_lt.mpr hbound)
    exact ⟨_, hserialize, deserialize_of_isEnvelope (isEnvelope_serialize hserialize)⟩
  · rw [deserialize_eq_ok_iff]
    exact ⟨fun h => ⟨h.bounded, h.field⟩, fun h => ⟨h.1, h.2⟩⟩
  · have hle := readVersion_le (by decide) h
    omega
  · have hread := readVersion_of_le hfield.digits 0 (by rw [hvalue, Nat.zero_mul, Nat.zero_add]; decide)
    rw [Nat.zero_mul, Nat.zero_add, hvalue] at hread
    exact hread
  · cases hrun : deserialize (magic ++ field ++ colon :: payload) with
    | error e => exact ⟨e, rfl⟩
    | ok message =>
        have hbound := (isEnvelope_of_deserialize hrun).bounded
        rw [deserialize_envelope hfield hbound] at hrun
        cases hread : readVersion field 0 with
        | error e => exact absurd hrun (by simp [hread])
        | ok version =>
            have hversion := (readVersion_eq_ok hread).2
            rw [Nat.zero_mul, Nat.zero_add] at hversion
            rw [hread] at hrun
            dsimp only at hrun
            rw [if_pos (by rw [hversion]; exact hvalue)] at hrun
            exact absurd hrun (by simp)

theorem wireFormat_lookalike :
    ∃ wire, serialize ⟨ascii "motus:99:not an envelope"⟩ = .ok wire ∧
      deserialize wire = .ok ⟨ascii "motus:99:not an envelope"⟩ :=
  wireFormat.2.1 _ (by decide)

/-! ## Spellings of one message

The version field is read as a number, so zeros before its digit change nothing. -/

/-- `'0'`. -/
def zero : UInt8 := 48

/-- The envelope of a payload with so many zeros before its version. -/
def spelling (zeros : Nat) (payload : Bytes) : Bytes :=
  magic ++ (List.replicate zeros zero ++ [49]) ++ colon :: payload

theorem spelling_zero (payload : Bytes) : spelling 0 payload = envelopePrefix ++ payload := by
  rw [envelopePrefix_eq, spelling, List.replicate_zero, List.nil_append,
    List.append_assoc _ [colon], List.singleton_append]

theorem length_spelling (zeros : Nat) (payload : Bytes) :
    (spelling zeros payload).length = envelopePrefix.length + payload.length + zeros := by
  have hmagic : magic.length = 6 := by decide
  have hprefix : envelopePrefix.length = 8 := by decide
  simp only [spelling, List.length_append, List.length_replicate, List.length_cons, List.length_nil,
    hmagic, hprefix]
  omega

/-- The fields with the value one. -/
theorem eq_replicate_of_decimalValue {field : Bytes} (hfield : IsVersionField field)
    (hvalue : decimalValue field = 1) : ∃ zeros, field = List.replicate zeros zero ++ [49] := by
  obtain ⟨hne, hdigits⟩ := hfield
  induction field with
  | nil => exact absurd rfl hne
  | cons c rest ih =>
      have hc := hdigits c List.mem_cons_self
      simp only [isDecimal, Bool.and_eq_true, decide_eq_true_eq, UInt8.le_iff_toNat_le] at hc
      have hlow : 48 ≤ c.toNat := hc.1
      rw [decimalValue_cons] at hvalue
      cases rest with
      | nil =>
          refine ⟨0, ?_⟩
          have hdigit : c.toNat = 49 := by
            simp only [decimalValue, List.length_nil, pow_zero, List.map_nil, List.reverse_nil,
              Nat.ofDigits_nil] at hvalue
            omega
          have heq : c = 49 := UInt8.toNat_inj.mp hdigit
          rw [List.replicate_zero, List.nil_append, heq]
      | cons d rest =>
          -- a digit before the last one counts for ten or more
          have hten : 10 ≤ 10 ^ (d :: rest).length := by
            rw [List.length_cons, pow_succ]
            exact Nat.le_mul_of_pos_left 10 (Nat.pow_pos (by decide))
          have hdigit : c.toNat - 48 = 0 := by
            by_contra hpos
            have hle := Nat.mul_le_mul (Nat.one_le_iff_ne_zero.mpr hpos) hten
            omega
          rw [hdigit, Nat.zero_mul, Nat.zero_add] at hvalue
          obtain ⟨zeros, hrest⟩ := ih hvalue (List.cons_ne_nil d rest)
            fun e he => hdigits e (List.mem_cons_of_mem c he)
          refine ⟨zeros + 1, ?_⟩
          have heq : c = zero := UInt8.toNat_inj.mp (show c.toNat = zero.toNat by
            change c.toNat = 48
            omega)
          rw [heq, hrest, List.replicate_succ, List.cons_append]

/-- The zeros and the digit are a field with the value one. -/
theorem isVersionField_replicate (zeros : Nat) :
    IsVersionField (List.replicate zeros zero ++ [49]) ∧
      decimalValue (List.replicate zeros zero ++ [49]) = 1 := by
  induction zeros with
  | zero => exact ⟨⟨by simp, by simp [isDecimal]⟩, by simp [decimalValue]⟩
  | succ zeros ih =>
      rw [List.replicate_succ, List.cons_append]
      refine ⟨⟨by simp, fun c hc => ?_⟩, ?_⟩
      · rcases List.mem_cons.mp hc with rfl | hc
        · decide
        · exact ih.1.digits c hc
      · rw [decimalValue_cons, ih.2]
        simp [zero]

/-- The bodies that decode to a message are its spellings within the bound. -/
theorem deserialize_eq_ok_iff_spelling (wire : Bytes) (message : ByteMessage) :
    deserialize wire = .ok message ↔
      wire.length ≤ maxPayloadBytes ∧ ∃ zeros, wire = spelling zeros message.payload := by
  rw [deserialize_eq_ok_iff]
  constructor
  · rintro ⟨hbound, field, hfield, hvalue, rfl⟩
    obtain ⟨zeros, rfl⟩ := eq_replicate_of_decimalValue hfield hvalue
    exact ⟨hbound, zeros, rfl⟩
  · rintro ⟨hbound, zeros, rfl⟩
    obtain ⟨hfield, hvalue⟩ := isVersionField_replicate zeros
    exact ⟨hbound, _, hfield, hvalue, rfl⟩

/-- Only the spelling without zeros starts with the prefix. -/
theorem envelopePrefix_isPrefix_spelling_iff (zeros : Nat) (payload : Bytes) :
    envelopePrefix <+: spelling zeros payload ↔ zeros = 0 := by
  constructor
  · intro h
    cases zeros with
    | zero => rfl
    | succ zeros =>
        rw [envelopePrefix_eq, spelling, List.append_assoc, List.append_assoc,
          List.prefix_append_right_inj, List.replicate_succ] at h
        simp only [List.cons_append] at h
        rw [List.cons_prefix_cons] at h
        exact absurd h.1 (by decide)
  · rintro rfl
    rw [spelling_zero]
    exact List.prefix_append _ _

/-- Whatever `deserialize` accepts, `serialize` gives back without the zeros before its
version: the same body exactly when it starts with `envelopePrefix`.  Two bodies with
one message differ in those zeros only. -/
theorem serialize_deserialize {wire : Bytes} {message : ByteMessage}
    (h : deserialize wire = .ok message) :
    serialize message = .ok (envelopePrefix ++ message.payload) ∧
      (serialize message = .ok wire ↔ envelopePrefix <+: wire) ∧
      (∃ zeros, wire = spelling zeros message.payload) ∧
      ∀ wire', deserialize wire' = .ok message →
        ∃ zeros, wire' = spelling zeros message.payload := by
  obtain ⟨hbound, zeros, rfl⟩ := (deserialize_eq_ok_iff_spelling _ _).mp h
  have hserialize : serialize message = .ok (envelopePrefix ++ message.payload) := by
    rw [length_spelling] at hbound
    exact if_neg (by omega)
  refine ⟨hserialize, ?_, ⟨zeros, rfl⟩, fun wire' hwire' =>
    ((deserialize_eq_ok_iff_spelling wire' message).mp hwire').2⟩
  rw [hserialize, envelopePrefix_isPrefix_spelling_iff]
  constructor
  · intro heq
    have hlength := congrArg List.length (Except.ok.inj heq)
    rw [length_spelling, List.length_append] at hlength
    omega
  · rintro rfl
    rw [spelling_zero]

/-- A body that no `serialize` has written. -/
theorem serialize_deserialize_padded :
    deserialize (ascii "motus:01:x") = .ok ⟨ascii "x"⟩ ∧
      serialize ⟨ascii "x"⟩ ≠ .ok (ascii "motus:01:x") ∧
      ¬ envelopePrefix <+: ascii "motus:01:x" ∧
      deserialize (ascii "motus:1:x") = .ok ⟨ascii "x"⟩ := by decide

theorem serialize_deserialize_plain :
    serialize ⟨ascii "x"⟩ = .ok (envelopePrefix ++ ascii "x") :=
  (@serialize_deserialize (ascii "motus:1:x") ⟨ascii "x"⟩ (by decide)).1

end ByteMessage

end Motus.Consumer
