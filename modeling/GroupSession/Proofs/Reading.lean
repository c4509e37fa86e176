import GroupSession.Cbor.Value

/-!
# Reading what was written

What is written in CBOR can be read without knowing where it ends, since every item says so itself.
This file says what that means for a reader and some bytes, and that it passes from the parts of a
reader to the whole: bytes that one reader uses up, followed by bytes that the next one does, are
used up by both together.

## Using up bytes

A reader *consumes* some bytes as a value if it reads exactly them, whatever follows and wherever
they stand, and if it finds that the input ends when any of them are missing at the end. The second
half needs a proof of its own: a reader could be content with less.

Every header is written in its shortest form. Reading it back is the one place where numbers are
taken apart; from there on, items are put together as the readers are.
-/

namespace GroupSession

namespace Cbor

namespace Reader

variable {σ α β : Type}

/-! ## Using up bytes -/

/-- The reader reads exactly these bytes as a value, and misses whatever is cut off at their end. -/
structure Consumes (reader : Reader α) (bytes : Bytes) (a : α) : Prop where
  reads : ∀ rest position,
    reader ⟨bytes ++ rest, position⟩ = .ok (a, ⟨rest, position + bytes.length⟩)
  ends : ∀ initial missing position, bytes = initial ++ missing → missing ≠ [] →
    reader ⟨initial, position⟩ = .error .endOfInput

theorem bind_apply_ok {reader : Reader α} {next : α → Reader β} {cursor after : Cursor} {a : α}
    (h : reader cursor = .ok (a, after)) : (reader >>= next) cursor = next a after := by
  change reader cursor >>= _ = _
  rw [h]
  rfl

theorem bind_apply_error {reader : Reader α} {next : α → Reader β} {cursor : Cursor}
    {fault : DecodeError} (h : reader cursor = .error fault) :
    (reader >>= next) cursor = .error fault := by
  change reader cursor >>= _ = _
  rw [h]
  rfl

namespace Consumes

theorem pure (a : α) : Consumes (pure a : Reader α) [] a where
  reads _ _ := rfl
  ends _ _ _ h hmissing := absurd (List.append_eq_nil_iff.mp h.symm).2 hmissing

/-- A reader that goes on with another one once it has used up some bytes. -/
theorem append {reader : Reader α} {next : Nat → Reader α} {bytes bytes' : Bytes} {a : α}
    (hreads : ∀ rest position,
      reader ⟨bytes ++ rest, position⟩ = next position ⟨rest, position + bytes.length⟩)
    (hends : ∀ initial missing position, bytes = initial ++ missing → missing ≠ [] →
      reader ⟨initial, position⟩ = .error .endOfInput)
    (hnext : ∀ start, Consumes (next start) bytes' a) : Consumes reader (bytes ++ bytes') a where
  reads rest position := by
    rw [List.append_assoc, hreads, (hnext position).reads, List.length_append, Nat.add_assoc]
  ends initial missing position heq hmissing := by
    -- What is left ends either among the bytes used up first or among those of the other reader.
    rcases List.append_eq_append_iff.mp heq with ⟨initial', rfl, hcut⟩ | ⟨missing', rfl, hcut⟩
    · rw [hreads]
      exact (hnext position).ends initial' missing _ hcut hmissing
    · by_cases hnil : missing' = []
      · subst hnil
        have hfirst := hreads [] position
        rw [List.append_nil, List.append_nil] at hfirst
        rw [hfirst]
        exact (hnext position).ends [] missing _ hcut.symm hmissing
      · exact hends initial missing' position rfl hnil

theorem bind {reader : Reader α} {next : α → Reader β} {bytes bytes' : Bytes} {a : α} {b : β}
    (h : Consumes reader bytes a) (hnext : Consumes (next a) bytes' b) :
    Consumes (reader >>= next) (bytes ++ bytes') b :=
  .append (fun rest position ↦ bind_apply_ok (h.reads rest position))
    (fun initial missing position heq hmissing ↦
      bind_apply_error (h.ends initial missing position heq hmissing))
    fun _ ↦ hnext

theorem bind_nil {reader : Reader α} {next : α → Reader β} {bytes : Bytes} {a : α} {b : β}
    (h : Consumes reader bytes a) (hnext : Consumes (next a) [] b) :
    Consumes (reader >>= next) bytes b := by
  have hbind := h.bind hnext
  rwa [List.append_nil] at hbind

theorem map {reader : Reader α} {bytes : Bytes} {a : α} (h : Consumes reader bytes a) (f : α → β) :
    Consumes (f <$> reader) bytes (f a) := by
  rw [map_eq_pure_bind]
  exact h.bind_nil (.pure (f a))

theorem position_bind {next : Nat → Reader α} {bytes : Bytes} {a : α}
    (h : ∀ start, Consumes (next start) bytes a) :
    Consumes (Reader.position >>= next) bytes a where
  reads rest position := (h position).reads rest position
  ends initial missing position := (h position).ends initial missing position

theorem take {size : Nat} {bytes : Bytes} (h : bytes.length = size) :
    Consumes (Reader.take size) bytes bytes where
  reads rest position := by
    rw [Reader.take, if_pos (by rw [List.length_append]; omega), ← h, List.take_left,
      List.drop_left]
  ends initial missing position heq hmissing := by
    have hpos := List.length_pos_iff.mpr hmissing
    rw [heq, List.length_append] at h
    exact if_neg (Nat.not_le.mpr (by omega : initial.length < size))

theorem byte (b : UInt8) : Consumes Reader.byte [b] b where
  reads _ _ := rfl
  ends initial missing position heq hmissing := by
    rcases List.append_eq_singleton_iff.mp heq.symm with ⟨rfl, -⟩ | ⟨-, hnil⟩
    · rfl
    · exact absurd hnil hmissing

/-! ## Repetition -/

theorem loop_done {step : σ → Reader (σ ⊕ α)} {state : σ} {bytes : Bytes} {answer : α}
    (h : Consumes (step state) bytes (.inr answer)) : Consumes (loop step state) bytes answer where
  reads rest position := by
    rw [loop, h.reads]
  ends initial missing position heq hmissing := by
    rw [loop, h.ends initial missing position heq hmissing]

theorem loop_again {step : σ → Reader (σ ⊕ α)} {state next : σ} {bytes bytes' : Bytes} {answer : α}
    (h : Consumes (step state) bytes (.inl next)) (hbytes : bytes ≠ [])
    (hrest : Consumes (loop step next) bytes' answer) :
    Consumes (loop step state) (bytes ++ bytes') answer := by
  have hpos := List.length_pos_iff.mpr hbytes
  refine .append (fun rest position ↦ ?_) (fun initial missing position heq hmissing ↦ ?_)
    fun _ ↦ hrest
  · have hlt : rest.length < (bytes ++ rest).length := by
      rw [List.length_append]
      omega
    rw [loop, h.reads]
    exact if_pos hlt
  · rw [loop, h.ends initial missing position heq hmissing]

end Consumes

/-! ## Headers -/

private theorem minor_lt (n : Nat) : minor n < 28 := by
  unfold minor
  split
  · omega
  split
  · decide
  split
  · decide
  split <;> decide

private theorem consumes_argument (start : Nat) {n : Nat} (hn : n < 2 ^ 64) :
    Consumes (argument start (minor n)) (Bytes.ofNatBE (argumentSize n) n) (some n) := by
  rw [argument]
  by_cases hsmall : n < 24
  · have hminor : minor n = n := if_pos hsmall
    have hsize : argumentSize n = 0 := if_pos hsmall
    rw [hminor, hsize, if_pos hsmall]
    exact .pure _
  · -- Any longer argument stands in as many bytes as the low bits say, and fits into them.
    obtain ⟨hlow, hsize, hlt⟩ : ¬minor n < 24 ∧ argumentSize n = 2 ^ (minor n - 24) ∧
        n < 256 ^ argumentSize n := by
      rw [minor, argumentSize, if_neg hsmall, if_neg hsmall]
      split
      · exact ⟨by decide, rfl, by omega⟩
      split
      · exact ⟨by decide, rfl, by omega⟩
      split
      · exact ⟨by decide, rfl, by omega⟩
      · exact ⟨by decide, rfl, by omega⟩
    rw [if_neg hlow, if_pos (minor_lt n), ← hsize]
    have htake : Consumes (take (argumentSize n)) (Bytes.ofNatBE (argumentSize n) n)
        (Bytes.ofNatBE (argumentSize n) n) := .take (Bytes.length_ofNatBE _ _)
    refine htake.bind_nil ?_
    rw [Bytes.toNatBE_ofNatBE, Nat.mod_eq_of_lt hlt]
    exact .pure _

/-- What a major type says with an argument in its shortest form. -/
def ofMajor : Nat → Nat → Header
  | 0, n => .positive n
  | 1, n => .negative n
  | 2, n => .bytes (some n)
  | 3, n => .text (some n)
  | 4, n => .array (some n)
  | 5, n => .map (some n)
  | 6, n => .tag n
  | _, n => special (minor n) (some n)

theorem consumes_header {major n : Nat} (hmajor : major < 8) (hn : n < 2 ^ 64) :
    Consumes header (head major n) (ofMajor major n) := by
  have hminor := minor_lt n
  have hbyte : (UInt8.ofNat (32 * major + minor n)).toNat = 32 * major + minor n := by
    rw [UInt8.toNat_ofNat']
    exact Nat.mod_eq_of_lt (by omega)
  have hlow : (32 * major + minor n) % 32 = minor n := by omega
  have hhigh : (32 * major + minor n) / 32 = major := by omega
  have hfirst : Consumes byte [UInt8.ofNat (32 * major + minor n)] _ := .byte _
  rw [head, ← List.singleton_append]
  refine .position_bind fun start ↦ hfirst.bind ?_
  rw [hbyte, hlow, hhigh]
  refine (consumes_argument start hn).bind_nil ?_
  match major, hmajor with
  | 0, _ | 1, _ | 2, _ | 3, _ | 4, _ | 5, _ | 6, _ | 7, _ => exact .pure _

private theorem untagged_of_header_ok {cursor after : Cursor} {found : Header}
    (h : header cursor = .ok (found, after)) (hfound : ∀ n, found ≠ .tag n) :
    untagged cursor = .ok ((cursor.position, found), after) := by
  rw [untagged, loop, bind_apply_ok (rfl : position cursor = .ok (cursor.position, cursor)),
    bind_apply_ok h]
  cases found with
  | tag n => exact absurd rfl (hfound n)
  | _ => rfl

private theorem untagged_of_header_error {cursor : Cursor} {fault : DecodeError}
    (h : header cursor = .error fault) : untagged cursor = .error fault := by
  rw [untagged, loop, bind_apply_ok (rfl : position cursor = .ok (cursor.position, cursor)),
    bind_apply_error h]

/-- What follows a header that is no tag may depend on its position. -/
theorem Consumes.untagged_bind {next : Nat × Header → Reader α} {bytes bytes' : Bytes}
    {found : Header} {a : α} (h : Consumes header bytes found) (hfound : ∀ n, found ≠ .tag n)
    (hnext : ∀ start, Consumes (next (start, found)) bytes' a) :
    Consumes (untagged >>= next) (bytes ++ bytes') a :=
  .append (fun rest position ↦ bind_apply_ok (untagged_of_header_ok (h.reads rest position) hfound))
    (fun initial missing position heq hmissing ↦
      bind_apply_error (untagged_of_header_error (h.ends initial missing position heq hmissing)))
    hnext

end Reader

end Cbor

end GroupSession
