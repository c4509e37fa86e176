import GroupSession.Pickle.State
import GroupSession.Proofs.Reading

/-!
# The written form of a session's state

A session's state is written as a map with four fields, in a fixed order, and the ratchet in it as
one with two. Reading is far more lenient than that, but of what was written it uses up exactly the
bytes, and gives back the state.

This holds of any state, also of one that no session can have: what the fields mean to each other is
not a matter of the form.

## Where a state ends

Since every item says itself how long it is, so does the map of them all. Nothing that follows a
state disturbs it, and nothing that is missing at its end goes unnoticed.
-/

namespace GroupSession

namespace Cbor

namespace Reader

variable {σ α : Type}

/-! ## Values -/

private theorem consumes_unsigned {width : Width} {n : Nat} (hn : n < width.bound) :
    Consumes (unsigned width) (writeUnsigned n) n := by
  have hbound : width.bound ≤ 2 ^ 64 := by cases width <;> decide
  have hheader : Consumes header (writeUnsigned n) (.positive n) :=
    consumes_header (by decide) (by omega)
  have hinteger : Consumes integer (writeUnsigned n) (false, n) :=
    .loop_done (hheader.bind_nil (.pure _))
  refine hinteger.bind_nil ?_
  dsimp only
  rw [if_neg (by decide), if_neg (by omega), if_neg (by omega)]
  exact .pure n

private theorem consumes_uint32 (n : UInt32) : Consumes uint32 (writeUnsigned n.toNat) n := by
  have hnumber : Consumes (unsigned .bits32) (writeUnsigned n.toNat) n.toNat :=
    consumes_unsigned n.toNat_lt
  have hmap := hnumber.map UInt32.ofNat
  rwa [UInt32.ofNat_toNat] at hmap

private theorem consumes_bool (b : Bool) : Consumes bool (writeBool b) b := by
  have hheader : Consumes header (writeBool b) (.simple (if b then 21 else 20)) := by
    cases b <;> exact consumes_header (by decide) (by decide)
  rw [← List.append_nil (writeBool b)]
  refine hheader.untagged_bind nofun fun start ↦ ?_
  cases b <;> exact .pure _

private theorem consumes_key (bytes : FixedBytes 32) :
    Consumes key (writeBytes bytes.toList) bytes := by
  have hheader : Consumes header (head 2 bytes.toList.length) (.bytes (some 32)) := by
    rw [bytes.length_toList]
    exact consumes_header (by decide) (by decide)
  refine hheader.untagged_bind nofun fun _ ↦ ?_
  dsimp only
  rw [if_pos (by decide)]
  refine Consumes.bind_nil (.take bytes.length_toList) ?_
  rw [asKey, FixedBytes.ofList?_toList]
  exact .pure bytes

private theorem consumes_items {item : Reader α} {write : α → Bytes}
    (h : ∀ a, Consumes item (write a) a) (values : List α) :
    Consumes (items item (some values.length) values.length) (values.flatMap write) values := by
  induction values with
  | nil => exact .pure []
  | cons a values ih =>
    exact (h a).bind (ih.bind_nil (.pure _))

private theorem consumes_parts (parts : Vector (FixedBytes 32) 4) :
    Consumes Reader.parts
      (arrayHead 4 ++ parts.toList.flatMap fun part ↦ writeBytes part.toList) parts := by
  have hheader : Consumes header (arrayHead 4) (.array (some 4)) :=
    consumes_header (by decide) (by decide)
  refine hheader.untagged_bind nofun fun _ ↦ ?_
  -- A vector of four parts is written and read as a list of four.
  match parts with
  | ⟨⟨[a, b, c, d]⟩, _⟩ =>
    exact (consumes_items consumes_key [a, b, c, d]).bind_nil (.pure _)

/-! ## Maps -/

/-- Whether a text can be the name of a field. -/
def IsName (name : String) : Prop :=
  (Bytes.ofAscii name).length ≤ pieceSize ∧ Utf8.isText (Bytes.ofAscii name) = true

instance (name : String) : Decidable (IsName name) := inferInstanceAs (Decidable (_ ∧ _))

private theorem consumes_nextName {name : String} (h : IsName name) :
    Consumes nextName (writeText name) (Bytes.ofAscii name) := by
  obtain ⟨hlength, htext⟩ := h
  have hheader : Consumes header (head 3 (Bytes.ofAscii name).length)
      (.text (some (Bytes.ofAscii name).length)) := by
    have hsize : pieceSize < 2 ^ 64 := by decide
    exact consumes_header (by decide) (by omega)
  refine hheader.untagged_bind nofun fun start ↦ ?_
  unfold fieldName
  dsimp only
  rw [if_pos hlength, pure_bind]
  refine Consumes.bind_nil (.take rfl) ?_
  rw [if_pos htext]
  exact .pure _

private theorem consumes_fields_zero (field : Bytes → σ → Reader σ) (state : σ) :
    Consumes (fields field (some 0) state) [] state :=
  .loop_done (.pure _)

/-- One more field: its name, its value, and all fields that follow. -/
private theorem consumes_fields_succ {field : Bytes → σ → Reader σ} {left : Nat} (name : String)
    {state next result : σ} {value bytes : Bytes} (hname : IsName name)
    (hvalue : Consumes (field (Bytes.ofAscii name) state) value next)
    (hrest : Consumes (fields field (some left) next) bytes result) :
    Consumes (fields field (some (left + 1)) state) (writeText name ++ value ++ bytes) result := by
  refine .loop_again ?_ ?_ hrest
  · exact (consumes_nextName hname).bind (hvalue.bind_nil (.pure _))
  · exact List.append_ne_nil_of_left_ne_nil (List.cons_ne_nil _ _) _

private theorem consumes_record {field : Bytes → σ → Reader σ} {size : Nat} {state result : σ}
    {bytes : Bytes} (hsize : size < 2 ^ 64)
    (h : Consumes (fields field (some size) state) bytes result) :
    Consumes (record field state) (mapHead size ++ bytes) result := by
  have hheader : Consumes header (mapHead size) (.map (some size)) :=
    consumes_header (by decide) hsize
  exact hheader.untagged_bind nofun fun _ ↦ h

/-- A field that has not come before takes its value. -/
private theorem Consumes.once {value : Reader α} {bytes : Bytes} {a : α}
    (h : Consumes value bytes a)
    (name : String) : Consumes (Reader.once name none value) bytes (some a) :=
  h.map some

end Reader

end Cbor

open Cbor Reader

private theorem Ratchet.consumes_read (levels : Nat) (ratchet : Ratchet) :
    Consumes (Ratchet.read levels) ratchet.encode ratchet := by
  obtain ⟨parts, counter⟩ := ratchet
  have hparts : Consumes (readField levels (Bytes.ofAscii partsName) {})
      (arrayHead 4 ++ parts.toList.flatMap fun part ↦ writeBytes part.toList)
      { parts := some parts } := by
    rw [readField, if_pos rfl]
    exact ((consumes_parts parts).once _).bind_nil (.pure _)
  have hcounter : Consumes
      (readField levels (Bytes.ofAscii counterName) { parts := some parts })
      (writeUnsigned counter.toNat) ⟨some parts, some counter⟩ := by
    rw [readField, if_neg (by decide +kernel), if_pos rfl]
    exact ((consumes_uint32 counter).once _).bind_nil (.pure _)
  have hfields : Consumes (fields (readField levels) (some 2) {}) _ ⟨some parts, some counter⟩ :=
    consumes_fields_succ partsName (by decide +kernel) hparts <|
      consumes_fields_succ counterName (by decide +kernel) hcounter (consumes_fields_zero _ _)
  have hread : Consumes (Ratchet.read levels) _ ⟨parts, counter⟩ :=
    (consumes_record (by decide) hfields).bind_nil (.pure _)
  have hencode : encode ⟨parts, counter⟩ = mapHead 2 ++
      (writeText partsName ++
          (arrayHead 4 ++ parts.toList.flatMap fun part ↦ writeBytes part.toList) ++
        (writeText counterName ++ writeUnsigned counter.toNat ++ [])) := by
    simp only [encode, List.append_assoc, List.append_nil]
  exact hencode ▸ hread

namespace SavedState

theorem consumes_read (state : SavedState) : Consumes read state.encode state := by
  obtain ⟨ratchet, signingKey, firstKnownIndex, verified⟩ := state
  have hratchet : Consumes (readField (Bytes.ofAscii ratchetName) {}) ratchet.encode
      { ratchet := some ratchet } := by
    rw [readField, if_pos rfl]
    exact ((ratchet.consumes_read _).once _).bind_nil (.pure _)
  have hkey : Consumes (readField (Bytes.ofAscii signingKeyName) { ratchet := some ratchet })
      (writeBytes signingKey.toList)
      { ratchet := some ratchet, signingKey := some signingKey } := by
    rw [readField, if_neg (by decide +kernel), if_pos rfl]
    exact ((consumes_key signingKey).once _).bind_nil (.pure _)
  have hindex : Consumes
      (readField (Bytes.ofAscii firstKnownIndexName)
        { ratchet := some ratchet, signingKey := some signingKey })
      (writeUnsigned firstKnownIndex.toNat)
      { ratchet := some ratchet, signingKey := some signingKey,
        firstKnownIndex := some firstKnownIndex } := by
    rw [readField, if_neg (by decide +kernel), if_neg (by decide +kernel), if_pos rfl]
    exact ((consumes_uint32 firstKnownIndex).once _).bind_nil (.pure _)
  have hverified : Consumes
      (readField (Bytes.ofAscii verifiedName)
        { ratchet := some ratchet, signingKey := some signingKey,
          firstKnownIndex := some firstKnownIndex })
      (writeBool verified)
      ⟨some ratchet, some signingKey, some firstKnownIndex, some verified⟩ := by
    rw [readField, if_neg (by decide +kernel), if_neg (by decide +kernel),
      if_neg (by decide +kernel), if_pos rfl]
    exact ((consumes_bool verified).once _).bind_nil (.pure _)
  have hfields : Consumes (fields readField (some 4) {}) _
      ⟨some ratchet, some signingKey, some firstKnownIndex, some verified⟩ :=
    consumes_fields_succ ratchetName (by decide +kernel) hratchet <|
      consumes_fields_succ signingKeyName (by decide +kernel) hkey <|
        consumes_fields_succ firstKnownIndexName (by decide +kernel) hindex <|
          consumes_fields_succ verifiedName (by decide +kernel) hverified
            (consumes_fields_zero _ _)
  have hread : Consumes read _ ⟨ratchet, signingKey, firstKnownIndex, verified⟩ :=
    (consumes_record (by decide) hfields).bind_nil (.pure _)
  have hencode : encode ⟨ratchet, signingKey, firstKnownIndex, verified⟩ = mapHead 4 ++
      (writeText ratchetName ++ ratchet.encode ++
        (writeText signingKeyName ++ writeBytes signingKey.toList ++
          (writeText firstKnownIndexName ++ writeUnsigned firstKnownIndex.toNat ++
            (writeText verifiedName ++ writeBool verified ++ [])))) := by
    simp only [encode, List.append_assoc, List.append_nil]
  exact hencode ▸ hread

/-! ## Where a state ends -/

theorem decode_encode_append (state : SavedState) (rest : Bytes) :
    decode (state.encode ++ rest) = .ok state := by
  rw [decode, StateT.run', (consumes_read state).reads]
  rfl

theorem decode_encode (state : SavedState) : decode state.encode = .ok state := by
  have hdecode := decode_encode_append state []
  rwa [List.append_nil] at hdecode

/-- Whatever is cut off at their end is missed. -/
theorem decode_of_append_eq_encode {state : SavedState} {initial missing : Bytes}
    (h : initial ++ missing = state.encode) (hmissing : missing ≠ []) :
    decode initial = .error .endOfInput := by
  rw [decode, StateT.run', (consumes_read state).ends initial missing 0 h.symm hmissing]
  rfl

/-- **The written form of a state says where it ends.** A state can have any fields, also such as no
session has. What it is written as is decoded to it in front of any bytes, and when some of it is
cut off, the end of the input is what is wrong. So no state is written as the beginning of what
another one is. -/
theorem decode_delimits (state : SavedState) :
    (∀ rest, decode (state.encode ++ rest) = .ok state) ∧
    (∀ initial, initial <+: state.encode → initial ≠ state.encode →
      decode initial = .error .endOfInput) ∧
    ∀ other : SavedState, state.encode <+: other.encode → state = other := by
  refine ⟨decode_encode_append state, ?_, ?_⟩
  · rintro initial ⟨missing, happend⟩ hne
    refine decode_of_append_eq_encode happend ?_
    rintro rfl
    rw [List.append_nil] at happend
    exact hne happend
  · rintro other ⟨rest, happend⟩
    have hstate := decode_encode_append state rest
    rw [happend, decode_encode] at hstate
    exact (Except.ok.inj hstate).symm

/-- A counter of three bytes in front of an index of five that it lies behind, which no session has;
and the same with a counter that takes two. -/
theorem decode_delimits_inconsistent :
    let state (counter : UInt32) : SavedState :=
      ⟨Ratchet.ofBytes (FixedBytes.zero 128) counter, FixedBytes.zero 32, 0x10000, true⟩
    (state 256).encode.length = (state 255).encode.length + 1 ∧
      decode ((state 256).encode ++ (state 255).encode) = .ok (state 256) ∧
      decode (state 256).encode.dropLast = .error .endOfInput ∧
      decode ((state 256).encode.take 24) = .error .endOfInput ∧
      ¬(state 255).encode <+: (state 256).encode := by
  intro state
  obtain ⟨hwhole, hcut, -⟩ := decode_delimits (state 256)
  refine ⟨by decide +kernel, hwhole _, ?_, ?_, fun hprefix ↦ ?_⟩
  · exact hcut _ (List.dropLast_prefix _) (by decide +kernel)
  · exact hcut _ (List.take_prefix _ _) (by decide +kernel)
  · have hsame : state 255 = state 256 := (decode_delimits (state 255)).2.2 (state 256) hprefix
    exact absurd (congrArg (·.ratchet.counter) hsame) (by decide)

end SavedState

end GroupSession
