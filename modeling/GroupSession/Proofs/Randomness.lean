import GroupSession.Proofs.Storing
import Mathlib.Data.List.Nodup

/-!
# Randomness is used once

The key and the nonce that a pickle is encrypted with come from random bytes. If two pickles had
the same ones, nothing would be left of what encryption is for. A source is a stream of words that
is known beforehand by whoever has the seed, so all that can be asked for is that no word of the
stream is taken twice.

## Words

A draw takes whole words. If its size is no multiple of four, what is left of its last word is lost,
and the next draw begins with the next word. So a draw is known by the `Span` of words it takes, and
the spans of a run, one after the other, are the beginning of the stream.

## Failures

A pickle draws before it asks the provider for anything. Whether and where it fails makes no
difference to the words it takes: four for its salt and then six for its nonce.
-/

namespace GroupSession

open GroupSession.Action

/-! ## Spans -/

/-- Words of a stream, so many from a place on. -/
structure Span where
  /-- The place of the first word. -/
  first : Nat
  /-- How many words there are. -/
  count : Nat
deriving DecidableEq

namespace Span

/-- The places of the words. -/
def places (span : Span) : List Nat := List.range' span.first span.count

/-- What the words spell in the stream that belongs to a seed. -/
def bytes (seed : FixedBytes 32) (span : Span) : Bytes :=
  ChaCha20.toBytes (RandomSource.words seed span.first span.count)

theorem length_bytes (seed : FixedBytes 32) (span : Span) :
    (span.bytes seed).length = 4 * span.count := by
  rw [bytes, ChaCha20.length_toBytes, RandomSource.length_words]

end Span

namespace RandomSource

theorem toList_draw (size : Nat) (source : RandomSource) :
    (source.draw size).1.toList =
      (Span.bytes source.seed ⟨source.position, wordsFor size⟩).take size := rfl

theorem toList_draw_words (count : Nat) (source : RandomSource) :
    (source.draw (4 * count)).1.toList = Span.bytes source.seed ⟨source.position, count⟩ := by
  have hcount : wordsFor (4 * count) = count := by
    rw [wordsFor]
    omega
  rw [toList_draw, hcount]
  exact List.take_of_length_le (Nat.le_of_eq (Span.length_bytes _ _))

end RandomSource

/-! ## Pickles -/

namespace Pickle

variable {provider : Provider} {key : Bytes} {saved : SavedState}

/-- The salt of a pickle that is made with a source. -/
def saltFrom (source : RandomSource) : FixedBytes 16 := (source.draw 16).1

/-- The nonce of a pickle that is made with a source. -/
def nonceFrom (source : RandomSource) : FixedBytes 24 := ((source.draw 16).2.draw 24).1

/-- Everything that is asked for in making a pickle, after the draws. -/
def encryptWith {σ : Type} (provider : Provider) (key : Bytes) (saved : SavedState)
    (salt : FixedBytes 16) (nonce : FixedBytes 24) : Action σ PickleError Pickle := do
  let encryptingKey ← deriveKey provider key salt
  let content : Sealed ←
    (Action.request provider (.aeadEncrypt encryptingKey nonce associated saved.encode)).mapError
      .crypto
  return { salt, nonce, content }

private theorem make_apply (source : RandomSource) (journal : Journal) :
    make provider key saved source journal =
      encryptWith provider key saved (saltFrom source) (nonceFrom source)
        ⟨source.seed, source.position + 10⟩ journal := rfl

private theorem toList_saltFrom (source : RandomSource) :
    (saltFrom source).toList = Span.bytes source.seed ⟨source.position, 4⟩ :=
  source.toList_draw_words 4

private theorem toList_nonceFrom (source : RandomSource) :
    (nonceFrom source).toList = Span.bytes source.seed ⟨source.position + 4, 6⟩ :=
  (source.draw 16).2.toList_draw_words 6

private theorem keepsState_encryptWith {σ : Type} (salt : FixedBytes 16) (nonce : FixedBytes 24) :
    KeepsState (encryptWith provider key saved salt nonce : Action σ PickleError Pickle) :=
  .bind (.mapError (.request provider _) _) fun _ ↦
    .bind (.mapError (.request provider _) _) fun _ ↦ .pure _

private theorem requests_encryptWith {σ : Type} (salt : FixedBytes 16) (nonce : FixedBytes 24)
    (state : σ) (journal : Journal) :
    let asked := Request.hkdf 32 salt.toList key keyInfo :: journal.requests
    let requests := (encryptWith provider key saved salt nonce state journal).journal.requests
    requests = asked ∨
      ∃ encryptingKey, requests =
        .aeadEncrypt encryptingKey nonce associated saved.encode :: asked := by
  intro asked requests
  cases hderive : (deriveKey provider key salt state journal).result with
  | error fault =>
    left
    simp only [requests, encryptWith, bind_apply_error hderive]
    rfl
  | ok encryptingKey =>
    refine .inr ⟨encryptingKey, ?_⟩
    simp only [requests, encryptWith, bind_apply_ok hderive]
    rw [bind_apply]
    split <;> rfl

end Pickle

namespace Session

/-- A pickle is made, or fails, with the given salt and nonce. The encrypting key is derived with
the salt, the state is encrypted with the nonce, and both stand in front of what comes of it. -/
structure PicklesWith (session : Session) (key : Bytes) (salt : FixedBytes 16)
    (nonce : FixedBytes 24) (journal : Journal)
    (outcome : Outcome RandomSource SessionError Bytes) : Prop where
  asks : let asked := Request.hkdf 32 salt.toList key Pickle.keyInfo :: journal.requests
    outcome.journal.requests = asked ∨
      ∃ encryptingKey, outcome.journal.requests =
        .aeadEncrypt encryptingKey nonce Pickle.associated session.save.encode :: asked
  carries : ∀ bytes, outcome.result = .ok bytes →
    (bytes.drop 1).take 40 = salt.toList ++ nonce.toList

variable {provider : Provider} {session : Session} {key : Bytes}

private theorem pickle_apply (source : RandomSource) (journal : Journal) :
    session.pickle provider key source journal =
      (mapError SessionError.ofPickle (Pickle.encryptWith provider key session.save
          (Pickle.saltFrom source) (Pickle.nonceFrom source)) >>= fun pickle ↦ pure pickle.toBytes)
        ⟨source.seed, source.position + 10⟩ journal := by
  rw [pickle, bind_apply, bind_apply, mapError, mapError, Pickle.make_apply]

/-- Ten words are taken, whether a pickle comes of it or not. -/
theorem state_pickle (source : RandomSource) (journal : Journal) :
    (session.pickle provider key source journal).state =
      ⟨source.seed, source.position + 10⟩ := by
  rw [pickle_apply]
  exact KeepsState.bind (.mapError (Pickle.keepsState_encryptWith _ _) _) (fun _ ↦ .pure _) _ _

private theorem picklesWith_pickle (source : RandomSource) (journal : Journal) :
    session.PicklesWith key (Pickle.saltFrom source) (Pickle.nonceFrom source) journal
      (session.pickle provider key source journal) := by
  constructor
  case asks =>
    -- Writing the pickle asks for nothing more.
    have hrequests : (session.pickle provider key source journal).journal =
        (Pickle.encryptWith provider key session.save (Pickle.saltFrom source)
          (Pickle.nonceFrom source) (⟨source.seed, source.position + 10⟩ : RandomSource)
            journal).journal := by
      rw [pickle_apply, bind_apply]
      split <;> rfl
    rw [hrequests]
    exact Pickle.requests_encryptWith _ _ _ _
  case carries =>
    intro bytes hbytes
    obtain ⟨pickle, hmake, h⟩ := result_bind_eq_ok_iff.mp hbytes
    cases h
    obtain ⟨hsalt, hnonce, -⟩ := Pickle.holds_of_make_ok (result_mapError_eq_ok_iff.mp hmake)
    rw [Pickle.toBytes, Pickle.saltFrom, Pickle.nonceFrom, ← hsalt, ← hnonce]
    simp only [List.cons_append, List.append_assoc, List.drop_succ_cons, List.drop_zero]
    rw [← List.append_assoc]
    exact List.take_left' (by simp)

end Session

/-! ## Uses of a source -/

/-- What a source is used for. -/
inductive RandomUse
  /-- So many bytes are drawn. -/
  | draw (size : Nat)
  /-- A session is stored under a key. -/
  | pickle (provider : Provider) (session : Session) (key : Bytes)

namespace RandomUse

/-- Uses the source. -/
def perform : RandomUse → Action RandomSource SessionError Bytes
  | draw size => do
    let bytes ← modifyGet (RandomSource.draw size)
    return bytes.toList
  | pickle provider session key => session.pickle provider key

/-- The words of each draw that is made, from a place of the stream on. -/
def spans (position : Nat) : RandomUse → List Span
  | draw size => [⟨position, RandomSource.wordsFor size⟩]
  | pickle .. => [⟨position, 4⟩, ⟨position + 4, 6⟩]

end RandomUse

/-- A use of a source, as it found source and journal. -/
structure Occasion where
  /-- What the source is used for. -/
  use : RandomUse
  /-- The source before. -/
  source : RandomSource
  /-- Everything that happened before. -/
  journal : Journal

namespace Occasion

/-- What the use leads to. -/
def outcome (occasion : Occasion) : Outcome RandomSource SessionError Bytes :=
  occasion.use.perform occasion.source occasion.journal

/-- The words of each draw that is made. -/
def spans (occasion : Occasion) : List Span := occasion.use.spans occasion.source.position

end Occasion

namespace RandomSource

/-- Uses of a source one after the other. None is stopped by a failure before it. -/
def occasions (source : RandomSource) (journal : Journal) : List RandomUse → List Occasion
  | [] => []
  | use :: uses =>
    let occasion : Occasion := ⟨use, source, journal⟩
    occasion :: occasions occasion.outcome.state occasion.outcome.journal uses

/-- The source after uses of it. -/
def after (source : RandomSource) (journal : Journal) : List RandomUse → RandomSource
  | [] => source
  | use :: uses =>
    let occasion : Occasion := ⟨use, source, journal⟩
    after occasion.outcome.state occasion.outcome.journal uses

end RandomSource

/-- A use goes on where the ones before have ended, and leaves no gap. -/
private theorem Occasion.takes (occasion : Occasion) :
    ∃ count, occasion.spans.flatMap Span.places =
        List.range' occasion.source.position count ∧
      occasion.outcome.state =
        ⟨occasion.source.seed, occasion.source.position + count⟩ := by
  obtain ⟨use, source, journal⟩ := occasion
  cases use with
  | draw size => exact ⟨RandomSource.wordsFor size, List.append_nil _, rfl⟩
  | pickle provider session key =>
    refine ⟨10, ?_, Session.state_pickle source journal⟩
    exact List.range'_append_1 (s := source.position) (m := 4) (n := 6)

namespace RandomSource

variable {source : RandomSource}

/-- The words that are taken in a run are those up to its end, each of them once. -/
private theorem occasions_take (source : RandomSource) (journal : Journal) (uses : List RandomUse) :
    ∃ count, ((source.occasions journal uses).flatMap Occasion.spans).flatMap Span.places =
        List.range' source.position count ∧
      source.after journal uses = ⟨source.seed, source.position + count⟩ := by
  induction uses generalizing source journal with
  | nil => exact ⟨0, rfl, rfl⟩
  | cons use uses ih =>
    let occasion : Occasion := ⟨use, source, journal⟩
    obtain ⟨count, hplaces, hstate⟩ := occasion.takes
    obtain ⟨rest, hrest, hafter⟩ := ih occasion.outcome.state occasion.outcome.journal
    have hposition : occasion.outcome.state.position = source.position + count := by
      rw [hstate]
    have hseed : occasion.outcome.state.seed = source.seed := by
      rw [hstate]
    rw [hposition] at hrest
    rw [hposition, hseed, Nat.add_assoc] at hafter
    refine ⟨count + rest, ?_, hafter⟩
    rw [← List.range'_append_1, ← hrest]
    exact List.flatMap_append.trans (congrArg (· ++ _) hplaces)

private theorem seed_of_mem {journal : Journal} {uses : List RandomUse} {occasion : Occasion}
    (h : occasion ∈ source.occasions journal uses) : occasion.source.seed = source.seed := by
  induction uses generalizing source journal with
  | nil => cases h
  | cons use uses ih =>
    rcases List.mem_cons.mp h with rfl | hrest
    · rfl
    · obtain ⟨count, -, hstate⟩ := Occasion.takes ⟨use, source, journal⟩
      rw [ih hrest, hstate]

private theorem uses_occasions (source : RandomSource) (journal : Journal) (uses : List RandomUse) :
    (source.occasions journal uses).map Occasion.use = uses := by
  induction uses generalizing source journal with
  | nil => rfl
  | cons use uses ih => exact congrArg (use :: ·) (ih _ _)

/-- **No word of a stream is taken twice.** In a run of draws and pickles, whatever their sizes,
sessions, keys and providers, and whether they succeed or fail, the spans of all draws are disjoint
and, one after the other, the beginning of the stream. A draw gives the bytes of its span. A pickle
takes ten words also if it fails: it is made with a salt of four and a nonce of six, and carries
them in front. -/
theorem no_word_taken_twice (seed : FixedBytes 32) (journal : Journal) (uses : List RandomUse) :
    let run := (ofSeed seed).occasions journal uses
    let spans := run.flatMap Occasion.spans
    run.map Occasion.use = uses ∧
      spans.flatMap Span.places = List.range ((ofSeed seed).after journal uses).position ∧
      spans.Pairwise (fun span later ↦ span.places.Disjoint later.places) ∧
      ∀ occasion ∈ run,
        let position := occasion.source.position
        match occasion.use with
        | .draw size =>
          occasion.outcome.result =
              .ok ((Span.bytes seed ⟨position, (size + 3) / 4⟩).take size) ∧
            occasion.outcome.state = ⟨seed, position + (size + 3) / 4⟩ ∧
            occasion.spans = [⟨position, (size + 3) / 4⟩]
        | .pickle _ session key =>
          ∃ salt nonce, salt.toList = Span.bytes seed ⟨position, 4⟩ ∧
            nonce.toList = Span.bytes seed ⟨position + 4, 6⟩ ∧
            session.PicklesWith key salt nonce occasion.journal occasion.outcome ∧
            occasion.outcome.state = ⟨seed, position + 10⟩ ∧
            occasion.spans = [⟨position, 4⟩, ⟨position + 4, 6⟩] := by
  intro run spans
  obtain ⟨count, hplaces, hafter⟩ := (ofSeed seed).occasions_take journal uses
  have hall : spans.flatMap Span.places = List.range count := by
    rw [List.range_eq_range']
    exact hplaces
  refine ⟨uses_occasions _ _ _, ?_, ?_, fun occasion hmem ↦ ?_⟩
  · have hposition : ((ofSeed seed).after journal uses).position = count := by
      rw [hafter]
      exact Nat.zero_add count
    rw [hposition, hall]
  · have hnodup : (spans.flatMap Span.places).Nodup := by
      rw [hall]
      exact List.nodup_range
    exact (List.nodup_flatMap.mp hnodup).2
  · have hseed : occasion.source.seed = seed := seed_of_mem hmem
    obtain ⟨use, source, before⟩ := occasion
    subst hseed
    cases use with
    | draw size => exact ⟨rfl, rfl, rfl⟩
    | pickle provider session key =>
      exact ⟨_, _, Pickle.toList_saltFrom source, Pickle.toList_nonceFrom source,
        Session.picklesWith_pickle source before, Session.state_pickle source before, rfl⟩

/-- A draw of five bytes uses up two words, and a pickle whose encryption fails ten more. Salt and
nonce of the next pickle come after these. -/
theorem no_word_taken_twice_after_failure :
    let failing : Provider := Provider.plain.failingAfter .aeadEncrypt 0 ⟨"out of order"⟩
    let session : Session := .ofRatchet (.ofBytes (FixedBytes.zero 128) 0) ⟨FixedBytes.zero 32⟩ true
    let run := (ofSeed (FixedBytes.zero 32)).occasions {}
      [.draw 5, .pickle failing session [1], .pickle .plain session [1]]
    ∃ draw failed made, run = [draw, failed, made] ∧
      failed.outcome.result = .error (.crypto ⟨"out of order"⟩) ∧
      ∃ bytes, made.outcome.result = .ok bytes ∧
        (bytes.drop 1).take 40 = Span.bytes (FixedBytes.zero 32) ⟨12, 4⟩ ++
          Span.bytes (FixedBytes.zero 32) ⟨16, 6⟩ := by
  intro failing session run
  obtain ⟨-, -, -, hrun⟩ := no_word_taken_twice (FixedBytes.zero 32) {}
    [.draw 5, .pickle failing session [1], .pickle .plain session [1]]
  refine ⟨_, _, _, rfl, rfl, _, rfl, ?_⟩
  obtain ⟨salt, nonce, hsalt, hnonce, hpickles, -⟩ := hrun run[2] (List.getElem_mem _)
  have hposition : run[2].source.position = 12 := rfl
  rw [hposition] at hsalt hnonce
  rw [← hsalt, ← hnonce]
  exact hpickles.carries _ rfl

end RandomSource

end GroupSession
