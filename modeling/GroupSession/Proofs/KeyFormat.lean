import GroupSession.SessionKey

/-!
# The written form of session keys

Both session keys are written as a version and what both of them hold: index, parts and public key,
at fixed places. The signed key has a signature behind that. A key that was written is read back
whole.

The version is checked and then dropped. What is read behind it leaves nothing out, so a key that
was read is written again, with any version, as the bytes it was read from.
-/

namespace GroupSession

theorem Ratchet.toBytes_ofBytes (bytes : FixedBytes 128) (counter : UInt32) :
    (ofBytes bytes counter).toBytes = bytes := by
  have hpart (i : Nat) (hi : i < 4) :
      bytes.toList.take (32 * i) ++ (ofBytes bytes counter).parts[i].toList =
        bytes.toList.take (32 * (i + 1)) := by
    simp only [ofBytes, Vector.getElem_ofFn]
    exact FixedBytes.take_append_slice bytes.toList (32 * i) 32 _
  have hfirst := hpart 0 (by decide)
  rw [Nat.mul_zero, List.take_zero, List.nil_append] at hfirst
  ext1
  simp only [toBytes, FixedBytes.append]
  rw [hfirst, hpart 1 (by decide), hpart 2 (by decide), hpart 3 (by decide)]
  exact List.take_of_length_le (by simp)

namespace KeyMaterial

theorem length_toBytes (version : UInt8) (material : KeyMaterial) :
    (material.toBytes version).length = 165 := by
  simp [toBytes]

/-- The written form of what a key holds. -/
def written (version : UInt8) (material : KeyMaterial) : FixedBytes 165 :=
  ⟨material.toBytes version, material.length_toBytes version⟩

@[simp] theorem ofBytes_written (version : UInt8) (material : KeyMaterial) :
    ofBytes (material.written version) = material := by
  obtain ⟨ratchet, signingKey⟩ := material
  have hindex : (written version ⟨ratchet, signingKey⟩).cut 1 4 (by decide) =
      indexBytes ratchet.counter :=
    FixedBytes.cut_eq_of_append [version] (ratchet.toBytes.toList ++ signingKey.toList)
      (by simp [written, toBytes]) rfl _
  have hparts : (written version ⟨ratchet, signingKey⟩).cut 5 128 (by decide) = ratchet.toBytes :=
    FixedBytes.cut_eq_of_append (version :: (indexBytes ratchet.counter).toList)
      signingKey.toList rfl (by simp) _
  have hkey : (written version ⟨ratchet, signingKey⟩).cut 133 32 (by decide) = signingKey :=
    FixedBytes.cut_eq_of_append
      (version :: (indexBytes ratchet.counter).toList ++ ratchet.toBytes.toList) []
      (by simp [written, toBytes]) (by simp) _
  rw [ofBytes, hindex, hparts, hkey, indexOfBytes_indexBytes, Ratchet.ofBytes_toBytes]

theorem toBytes_ofBytes (version : UInt8) (bytes : FixedBytes 165) :
    (ofBytes bytes).toBytes version = version :: bytes.toList.drop 1 := by
  have hindex := FixedBytes.take_append_slice bytes.toList 1 4 (by simp)
  have hparts := FixedBytes.take_append_slice bytes.toList 5 128 (by simp)
  have hkey := FixedBytes.take_append_slice bytes.toList 133 32 (by simp)
  have hall : bytes.toList.take 165 = bytes.toList := List.take_of_length_le (by simp)
  have hfields : bytes.toList.take 1 ++ ((bytes.cut 1 4 (by decide)).toList ++
      (bytes.cut 5 128 (by decide)).toList ++ (bytes.cut 133 32 (by decide)).toList) =
        bytes.toList.take 1 ++ bytes.toList.drop 1 := by
    simp only [FixedBytes.cut, ← List.append_assoc]
    rw [hindex, hparts, hkey, hall, List.take_append_drop]
  rw [toBytes, ofBytes, Ratchet.toBytes_ofBytes]
  simp only [Ratchet.ofBytes, indexBytes_indexOfBytes, List.cons_append]
  rw [List.append_cancel_left hfields]

theorem drop_toBytes_append (version : UInt8) (material : KeyMaterial) (rest : Bytes) :
    (material.toBytes version ++ rest).drop 133 = material.signingKey.toList ++ rest := by
  rw [toBytes, List.append_assoc]
  exact List.drop_left' (by simp)

theorem take_drop_toBytes_append (version : UInt8) (material : KeyMaterial) (rest : Bytes) :
    ((material.toBytes version ++ rest).drop 1).take 4 =
      (indexBytes material.ratchet.counter).toList := by
  simp only [toBytes, List.cons_append, List.append_assoc, List.drop_succ_cons, List.drop_zero]
  exact List.take_left' (by simp)

theorem verifyingKey_eq_ok {material : KeyMaterial} {signer : Ed25519.VerifyingKey}
    (hvalid : signer.Valid) (hsigner : material.signingKey = signer.bytes) :
    material.verifyingKey = .ok signer := by
  rw [verifyingKey, hsigner, hvalid, Option.elim]

end KeyMaterial

/-! ## The layout -/

theorem checkLayout_of_head?_ne {version first : UInt8} {size : Nat} {bytes : Bytes}
    (hfirst : bytes.head? = some first) (hne : first ≠ version) :
    checkLayout version size bytes = .error (.unknownVersion first) := by
  have hother : bytes.head?.filter (· ≠ version) = some first := by
    simp [hfirst, hne]
  rw [checkLayout, hother]

theorem checkLayout_of_length_ne {version : UInt8} {size : Nat} {bytes : Bytes}
    (hversion : ∀ first, bytes.head? = some first → first = version)
    (hlength : bytes.length ≠ size) :
    checkLayout version size bytes = .error (.invalidLength size bytes.length) := by
  have hother : bytes.head?.filter (· ≠ version) = none := by
    simpa [Option.filter_eq_none_iff] using hversion
  have hsize : FixedBytes.ofList? size bytes = none := dif_neg hlength
  rw [checkLayout, hother, hsize]

private theorem checkLayout_cons {version : UInt8} {size : Nat} {rest : Bytes}
    (bytes : FixedBytes size) (hbytes : bytes.toList = version :: rest) :
    checkLayout version size bytes.toList = .ok bytes := by
  have hhead : bytes.toList.head?.filter (· ≠ version) = none := by
    simp [hbytes]
  rw [checkLayout, hhead, FixedBytes.ofList?_toList]

/-- Reading what was written gives the signed key back. -/
@[simp] theorem SessionKey.ofBytes_toBytes (key : SessionKey) : ofBytes key.toBytes = .ok key := by
  obtain ⟨material, signature⟩ := key
  let bytes : FixedBytes size := (material.written version).append signature
  have hmaterial : bytes.cut 0 165 (by decide) = material.written version :=
    FixedBytes.cut_eq_of_append [] signature.toList rfl rfl _
  have hsignature : bytes.cut 165 64 (by decide) = signature :=
    FixedBytes.cut_eq_of_append (material.toBytes version) []
      (List.append_nil _).symm (material.length_toBytes version) _
  have hlayout : checkLayout version size (toBytes ⟨material, signature⟩) = .ok bytes :=
    checkLayout_cons bytes rfl
  simp only [ofBytes, hlayout, Except.map, hmaterial, hsignature, KeyMaterial.ofBytes_written]

/-- Reading what was written gives the shared key back. -/
@[simp] theorem ExportedSessionKey.ofBytes_toBytes (key : ExportedSessionKey) :
    ofBytes key.toBytes = .ok key := by
  have hlayout : checkLayout version size key.toBytes = .ok (key.material.written version) :=
    checkLayout_cons (key.material.written version) rfl
  simp only [ofBytes, hlayout, Except.map, KeyMaterial.ofBytes_written]

end GroupSession
