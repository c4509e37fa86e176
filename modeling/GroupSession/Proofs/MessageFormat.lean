import GroupSession.Message

/-!
# The written form of messages

A message is written as a header of five bytes, the ciphertext, and eighty bytes of tag and
signature. Since only the ciphertext has no fixed length, reading finds every field by counting from
one of both ends.

## One to one

Reading what was written gives the message back. The other way round, the fields that are read lie
next to each other and leave nothing out, so writing them again gives the bytes that were read. Each
field ends where the next one starts: header, signed part and whole are beginnings of the bytes, of
five, of all but 64 and of all. That is why a signature can be checked over a message that was read
and written again.
-/

namespace GroupSession

/-- What the first byte and the length of bytes can be, to one who expects a version and a size. -/
theorem Bytes.layout_cases (version : UInt8) (size : Nat) (bytes : Bytes) :
    bytes = [] ∨ (∃ first, bytes.head? = some first ∧ first ≠ version) ∨
      (bytes.head? = some version ∧ bytes.length < size) ∨
      (bytes.head? = some version ∧ size ≤ bytes.length) := by
  cases bytes with
  | nil => exact .inl rfl
  | cons first rest =>
    by_cases hversion : first = version
    · subst hversion
      rcases Nat.lt_or_ge (first :: rest).length size with hlt | hle
      · exact .inr (.inr (.inl ⟨rfl, hlt⟩))
      · exact .inr (.inr (.inr ⟨rfl, hle⟩))
    · exact .inr (.inl ⟨first, rfl, hversion⟩)

namespace Message

@[simp] theorem length_header (index : UInt32) : (header index).length = 5 := by
  rw [header, List.length_cons, FixedBytes.length_toList]

theorem length_toBytes (message : Message) :
    message.toBytes.length = message.ciphertext.length + 85 := by
  simp only [toBytes, signedBytes, List.length_append, length_header, FixedBytes.length_toList]
  omega

/-- Bytes that begin with the version and are long enough are read field by field. -/
private theorem ofBytes_of_le {bytes rest : Bytes} (hbytes : bytes = version :: rest)
    (hle : 85 ≤ bytes.length) :
    ofBytes bytes = .ok (fieldsOf bytes hle) := by
  subst hbytes
  have hsize : ¬(version :: rest).length < minSize := Nat.not_lt.mpr hle
  rw [ofBytes, if_neg (fun h ↦ h rfl), dif_neg hsize]

/-- Reading what was written gives the message back. -/
@[simp] theorem ofBytes_toBytes (message : Message) : ofBytes message.toBytes = .ok message := by
  have hlength := length_toBytes message
  have hversion : message.toBytes = version :: _ := rfl
  rw [ofBytes_of_le hversion (by omega), fieldsOf]
  obtain ⟨index, ciphertext, mac, signature⟩ := message
  -- The four fields in turn: what stands before each of them, and what behind.
  congr
  · have hbytes : toBytes ⟨index, ciphertext, mac, signature⟩ =
        [version] ++ (indexBytes index).toList ++
          (ciphertext ++ mac.toList ++ signature.toList) := by
      simp [toBytes, signedBytes, header]
    refine (congrArg indexOfBytes ?_).trans (indexOfBytes_indexBytes index)
    exact FixedBytes.slice_eq_of_append [version] _ hbytes rfl _
  · rw [hlength, Nat.add_sub_cancel]
    simp [toBytes, signedBytes]
  · refine FixedBytes.slice_eq_of_append (header index ++ ciphertext) signature.toList rfl ?_ _
    simp [hlength]
    omega
  · refine FixedBytes.slice_eq_of_append (header index ++ ciphertext ++ mac.toList) [] ?_ ?_ _
    · simp [toBytes, signedBytes]
    · simp [hlength]
      omega

/-! ## Writing what was read -/

section Fields

variable {bytes : Bytes} (hversion : bytes.head? = some version) (hle : 85 ≤ bytes.length)

include hversion

private theorem header_fieldsOf : header (fieldsOf bytes hle).index = bytes.take 5 := by
  have hfirst : bytes.take 1 = [version] := by
    rw [List.take_one, hversion]
    rfl
  have hheader := FixedBytes.take_append_slice bytes 1 4 (by omega)
  rw [hfirst] at hheader
  rw [header, fieldsOf, indexBytes_indexOfBytes]
  exact hheader

private theorem signedBytes_fieldsOf :
    (fieldsOf bytes hle).signedBytes = bytes.take (bytes.length - 64) := by
  have hciphertext : bytes.take 5 ++ (fieldsOf bytes hle).ciphertext =
      bytes.take (bytes.length - 80) := by
    rw [show bytes.length - 80 = 5 + (bytes.length - 85) by omega, List.take_add]
    rfl
  have hmac : bytes.take (bytes.length - 80) ++ (fieldsOf bytes hle).mac.toList =
      bytes.take (bytes.length - 80 + 16) :=
    FixedBytes.take_append_slice bytes (bytes.length - 80) 16 (by omega)
  rw [signedBytes, header_fieldsOf hversion, hciphertext, hmac,
    show bytes.length - 80 + 16 = bytes.length - 64 by omega]

private theorem toBytes_fieldsOf : (fieldsOf bytes hle).toBytes = bytes := by
  have hsignature : bytes.take (bytes.length - 64) ++ (fieldsOf bytes hle).signature.toList =
      bytes.take (bytes.length - 64 + 64) :=
    FixedBytes.take_append_slice bytes (bytes.length - 64) 64 (by omega)
  rw [toBytes, signedBytes_fieldsOf hversion, hsignature, List.take_of_length_le (by omega)]

end Fields

/-! ## Which bytes are messages -/

private theorem ofBytes_of_head?_ne {bytes : Bytes} {first : UInt8}
    (hfirst : bytes.head? = some first)
    (hne : first ≠ version) : ofBytes bytes = .error (.unknownVersion first) := by
  obtain ⟨rest, rfl⟩ := List.head?_eq_some_iff.mp hfirst
  rw [ofBytes, if_pos hne]

private theorem ofBytes_of_lt {bytes : Bytes} (hversion : bytes.head? = some version)
    (hlt : bytes.length < 85) : ofBytes bytes = .error (.tooShort bytes.length) := by
  obtain ⟨rest, rfl⟩ := List.head?_eq_some_iff.mp hversion
  have hsize : (version :: rest).length < minSize := hlt
  rw [ofBytes, if_neg (fun h ↦ h rfl), dif_pos hsize]

private theorem layout_of_ofBytes_ok {bytes : Bytes} {message : Message}
    (h : ofBytes bytes = .ok message) : bytes.head? = some version ∧ 85 ≤ bytes.length := by
  cases bytes with
  | nil => cases h
  | cons first rest =>
    by_cases hversion : first = version
    · subst hversion
      refine ⟨rfl, Nat.le_of_not_lt fun hlt ↦ ?_⟩
      rw [ofBytes_of_lt rfl hlt] at h
      cases h
    · rw [ofBytes_of_head?_ne rfl hversion] at h
      cases h

theorem eq_take_of_ofBytes_ok {bytes : Bytes} {message : Message}
    (h : ofBytes bytes = .ok message) :
    message.toBytes = bytes ∧ message.signedBytes = bytes.take (bytes.length - 64) ∧
      header message.index = bytes.take 5 := by
  obtain ⟨hversion, hle⟩ := layout_of_ofBytes_ok h
  obtain ⟨rest, hrest⟩ := List.head?_eq_some_iff.mp hversion
  obtain rfl := Except.ok.inj ((ofBytes_of_le hrest hle).symm.trans h)
  exact ⟨toBytes_fieldsOf hversion hle, signedBytes_fieldsOf hversion hle,
    header_fieldsOf hversion hle⟩

/-- The bytes are long enough for a message and have its version, and at their places, counted from
one of both ends, stand the fields of this one. -/
structure Spells (bytes : Bytes) (message : Message) : Prop where
  version : bytes.head? = some 3
  length : 85 ≤ bytes.length
  index : message.index.toNat = Bytes.toNatBE ((bytes.drop 1).take 4)
  ciphertext : message.ciphertext = (bytes.drop 5).take (bytes.length - 85)
  mac : message.mac.toList = (bytes.drop (bytes.length - 80)).take 16
  signature : message.signature.toList = bytes.drop (bytes.length - 64)

/-- What is wrong, first of all, with bytes that are no message. -/
inductive Malformed (bytes : Bytes) : MessageError → Prop
  | empty (hbytes : bytes = []) : Malformed bytes (.tooShort 0)
  | unknownVersion {first : UInt8} (hfirst : bytes.head? = some first) (hne : first ≠ 3) :
    Malformed bytes (.unknownVersion first)
  | tooShort (hversion : bytes.head? = some 3) (hlt : bytes.length < 85) :
    Malformed bytes (.tooShort bytes.length)

private theorem spells_fieldsOf {bytes : Bytes} (hversion : bytes.head? = some version)
    (hle : 85 ≤ bytes.length) : Spells bytes (fieldsOf bytes hle) where
  version := hversion
  length := hle
  index := by
    have hlt := Bytes.toNatBE_lt ((bytes.drop 1).take 4)
    have hlength : ((bytes.drop 1).take 4).length ≤ 4 := List.length_take_le _ _
    have hbound : Bytes.toNatBE ((bytes.drop 1).take 4) < 256 ^ 4 :=
      Nat.lt_of_lt_of_le hlt (Nat.pow_le_pow_right (by decide) hlength)
    exact UInt32.toNat_ofNat_of_lt' hbound
  ciphertext := rfl
  mac := rfl
  signature := by
    have hlength : (bytes.drop (bytes.length - 64)).length ≤ 64 := by
      rw [List.length_drop]
      omega
    exact List.take_of_length_le hlength

theorem Spells.unique {bytes : Bytes} {message other : Message} (h : Spells bytes message)
    (hother : Spells bytes other) : message = other := by
  obtain ⟨index, ciphertext, mac, signature⟩ := message
  obtain ⟨index', ciphertext', mac', signature'⟩ := other
  obtain rfl : index = index' := UInt32.toNat_inj.mp (h.index.trans hother.index.symm)
  obtain rfl : ciphertext = ciphertext' := h.ciphertext.trans hother.ciphertext.symm
  obtain rfl : mac = mac' := FixedBytes.ext (h.mac.trans hother.mac.symm)
  obtain rfl : signature = signature' :=
    FixedBytes.ext (h.signature.trans hother.signature.symm)
  rfl

/-- Exactly what bytes spell is read from them. -/
theorem ofBytes_eq_ok_iff {bytes : Bytes} {message : Message} :
    ofBytes bytes = .ok message ↔ Spells bytes message := by
  constructor
  · intro h
    obtain ⟨hversion, hle⟩ := layout_of_ofBytes_ok h
    obtain ⟨rest, hrest⟩ := List.head?_eq_some_iff.mp hversion
    obtain rfl := Except.ok.inj ((ofBytes_of_le hrest hle).symm.trans h)
    exact spells_fieldsOf hversion hle
  · intro h
    obtain ⟨rest, hrest⟩ := List.head?_eq_some_iff.mp h.version
    have hfields := spells_fieldsOf h.version h.length
    exact (ofBytes_of_le hrest h.length).trans (congrArg Except.ok (hfields.unique h))

theorem Malformed.ofBytes_eq {bytes : Bytes} {cause : MessageError} (h : Malformed bytes cause) :
    ofBytes bytes = .error cause := by
  cases h with
  | empty hbytes =>
    subst hbytes
    rfl
  | unknownVersion hfirst hne => exact ofBytes_of_head?_ne hfirst hne
  | tooShort hversion hlt => exact ofBytes_of_lt hversion hlt

theorem spells_or_malformed (bytes : Bytes) :
    (∃ message, Spells bytes message) ∨ ∃ cause, Malformed bytes cause := by
  rcases Bytes.layout_cases 3 85 bytes with
    hempty | ⟨first, hfirst, hne⟩ | ⟨hversion, hlt⟩ | ⟨hversion, hle⟩
  · exact .inr ⟨_, .empty hempty⟩
  · exact .inr ⟨_, .unknownVersion hfirst hne⟩
  · exact .inr ⟨_, .tooShort hversion hlt⟩
  · exact .inl ⟨_, spells_fieldsOf hversion hle⟩

/-- **Messages and their written forms belong to each other one to one.** Every message is read back
from its written form. Bytes are read as a message exactly if they begin with the version and have
at least the size of an empty message, and the message is then written as these very bytes: what is
signed is all of them but the signature, what is authenticated with the text are the first five. All
other bytes are rejected, first for a wrong version and then for their length. -/
theorem reads_exactly_what_is_written :
    (∀ message, ofBytes message.toBytes = .ok message) ∧
    ∀ bytes : Bytes,
      ((∃ message, ofBytes bytes = .ok message) ↔ bytes.head? = some 3 ∧ 85 ≤ bytes.length) ∧
      (∀ message, ofBytes bytes = .ok message →
        message.toBytes = bytes ∧ message.signedBytes = bytes.take (bytes.length - 64) ∧
          header message.index = bytes.take 5) ∧
      (bytes = [] → ofBytes bytes = .error (.tooShort 0)) ∧
      (∀ first, bytes.head? = some first → first ≠ 3 →
        ofBytes bytes = .error (.unknownVersion first)) ∧
      (bytes.head? = some 3 → bytes.length < 85 →
        ofBytes bytes = .error (.tooShort bytes.length)) := by
  refine ⟨ofBytes_toBytes, fun bytes ↦ ⟨⟨?_, ?_⟩, fun message ↦ eq_take_of_ofBytes_ok, ?_,
    fun first ↦ ofBytes_of_head?_ne, ofBytes_of_lt⟩⟩
  · rintro ⟨message, h⟩
    exact layout_of_ofBytes_ok h
  · rintro ⟨hversion, hle⟩
    obtain ⟨rest, hrest⟩ := List.head?_eq_some_iff.mp hversion
    exact ⟨_, ofBytes_of_le hrest hle⟩
  · rintro rfl
    rfl

/-- Around the smallest size, and with a byte of text between the fixed fields. -/
theorem reads_around_smallest_size :
    let bytes (count : Nat) : Bytes := 3 :: 0 :: 0 :: 1 :: 44 :: List.replicate count 7
    ofBytes (bytes 79) = .error (.tooShort 84) ∧
      (∃ message, ofBytes (bytes 80) = .ok message ∧ message.toBytes = bytes 80) ∧
      (∃ message, ofBytes (bytes 81) = .ok message ∧ message.signedBytes = bytes 17) ∧
      ofBytes (4 :: bytes 80) = .error (.unknownVersion 4) := by
  intro bytes
  have hread (count : Nat) := reads_exactly_what_is_written.2 (bytes count)
  refine ⟨(hread 79).2.2.2.2 rfl (by decide), ?_, ?_, ?_⟩
  · obtain ⟨message, hmessage⟩ := (hread 80).1.mpr ⟨rfl, by decide⟩
    exact ⟨message, hmessage, ((hread 80).2.1 message hmessage).1⟩
  · obtain ⟨message, hmessage⟩ := (hread 81).1.mpr ⟨rfl, by decide⟩
    exact ⟨message, hmessage, ((hread 81).2.1 message hmessage).2.1⟩
  · exact (reads_exactly_what_is_written.2 (4 :: bytes 80)).2.2.2.1 4 rfl (by decide)

end Message

end GroupSession
