import TdsAdmin.Package.Upload

/-!
# The encoded package

`$EncodedTestPackage` is the base64 of each piece the compressor hands out, glued together. The
line breaks `encode_base64` puts in are taken out again at the end, so what is left is exactly
`Base64.glue` of the pieces (`encodeTestPackage_eq`), and whether that can be decoded as one
base64 text is a question about the *lengths* of the pieces (`specificationXml_decodes_iff`).

The very first piece decides it in practice: `deflate` starts a stream by handing out the two
bytes of its header, and two bytes are not a whole group.
-/

set_option autoImplicit false

namespace TdsAdmin
namespace Package

variable {σ : Type}

/-! ## The pieces of one package -/

/-- The pieces the stream hands out for the lines, and the stream after them. -/
def Deflater.linePieces (z : Deflater σ) : σ → List Text → Option (List (List UInt8) × σ)
  | stream, [] => some ([], stream)
  | stream, line :: lines => (z.deflate stream line).bind fun d =>
      (z.linePieces d.2 lines).map fun r => (d.1 :: r.1, r.2)

/-- Every piece handed out for a package: one for each line, and the one of the final `flush`.
`none` when a call does not answer `Z_OK`. -/
def Deflater.pieces (z : Deflater σ) (testPackage : List Text) : Option (List (List UInt8)) :=
  z.init.bind fun stream => (z.linePieces stream testPackage).bind fun r =>
    (z.flush r.2).map fun d => r.1 ++ [d]

/-! ## Line breaks come out again -/

theorem stripLineEnds_append (u v : Text) :
    stripLineEnds (u ++ v) = stripLineEnds u ++ stripLineEnds v := by
  simp [stripLineEnds]

theorem stripLineEnds_wrapLines : ∀ {s : Text} {k : Nat}, (∀ c ∈ s, c ≠ '\n' ∧ c ≠ '\r') →
    stripLineEnds (wrapLines k s) = s
  | [], k, _ => by
    rw [wrapLines]
    split <;> rfl
  | c :: s, k, h => by
    obtain ⟨hn, hr⟩ := h c (by simp)
    have hs : ∀ d ∈ s, d ≠ '\n' ∧ d ≠ '\r' := fun d hd => h d (by simp [hd])
    have hkeep : ∀ u, stripLineEnds (c :: u) = c :: stripLineEnds u := by
      intro u
      simp [stripLineEnds, hn, hr]
    have hdrop : ∀ u, stripLineEnds ('\n' :: u) = stripLineEnds u := fun u => rfl
    rw [wrapLines]
    split
    · rw [hkeep, hdrop, stripLineEnds_wrapLines hs]
    · rw [hkeep, stripLineEnds_wrapLines hs]

theorem letter_ne_lineEnd {n : Nat} (h : n < 64) :
    Base64.letter n ≠ '\n' ∧ Base64.letter n ≠ '\r' := by
  have hall : ∀ n < 64, Base64.letter n ≠ '\n' ∧ Base64.letter n ≠ '\r' := by decide
  exact hall n h

theorem encode_no_lineEnd : ∀ (p : List UInt8), ∀ c ∈ Base64.encode p, c ≠ '\n' ∧ c ≠ '\r'
  | [], c, h => by simp [Base64.encode] at h
  | [a], c, h => by
    have ha := a.toNat_lt
    simp only [Base64.encode, List.mem_cons, List.not_mem_nil, or_false] at h
    rcases h with rfl | rfl | rfl | rfl
    · exact letter_ne_lineEnd (by omega)
    · exact letter_ne_lineEnd (by omega)
    · decide
    · decide
  | [a, b], c, h => by
    have ha := a.toNat_lt
    have hb := b.toNat_lt
    simp only [Base64.encode, List.mem_cons, List.not_mem_nil, or_false] at h
    rcases h with rfl | rfl | rfl | rfl
    · exact letter_ne_lineEnd (by omega)
    · exact letter_ne_lineEnd (by omega)
    · exact letter_ne_lineEnd (by omega)
    · decide
  | x :: y :: w :: rest, c, h => by
    have hx := x.toNat_lt
    have hy := y.toNat_lt
    have hw := w.toNat_lt
    rw [Base64.encode] at h
    simp only [List.mem_cons] at h
    rcases h with rfl | rfl | rfl | rfl | h
    · exact letter_ne_lineEnd (by omega)
    · exact letter_ne_lineEnd (by omega)
    · exact letter_ne_lineEnd (by omega)
    · exact letter_ne_lineEnd (by omega)
    · exact encode_no_lineEnd rest c h

theorem stripLineEnds_encodeBase64 (p : List UInt8) :
    stripLineEnds (encodeBase64 p) = Base64.encode p :=
  stripLineEnds_wrapLines (encode_no_lineEnd p)

/-! ## What the loop builds -/

/-- One turn adds the text of one piece; after all the lines it is the glued text of theirs. -/
theorem deflateLines_eq {z : Deflater σ} : ∀ {lines : List Text} {stream stream' : σ}
    (encoded : Text) {ps : List (List UInt8)}, z.linePieces stream lines = some (ps, stream') →
    ∃ out, deflateLines z stream encoded lines = .ok (out, stream') ∧
      stripLineEnds out = stripLineEnds encoded ++ Base64.glue ps
  | [], stream, stream', encoded, ps, h => by
    simp only [Deflater.linePieces, Option.some.injEq, Prod.mk.injEq] at h
    obtain ⟨rfl, rfl⟩ := h
    exact ⟨encoded, rfl, by simp [Base64.glue]⟩
  | line :: lines, stream, stream', encoded, ps, h => by
    rw [Deflater.linePieces] at h
    obtain ⟨⟨deflated, next⟩, hd, h⟩ := Option.bind_eq_some_iff.mp h
    obtain ⟨⟨qs, last⟩, hq, h⟩ := Option.map_eq_some_iff.mp h
    simp only [Prod.mk.injEq] at h
    obtain ⟨rfl, rfl⟩ := h
    obtain ⟨out, hout, hstrip⟩ := deflateLines_eq (encoded ++ encodeBase64 deflated) hq
    refine ⟨out, ?_, ?_⟩
    · rw [deflateLines, hd]
      exact hout
    · rw [hstrip, stripLineEnds_append, stripLineEnds_encodeBase64, List.append_assoc]
      rfl

/-- The encoded package is the glued text of all the pieces. -/
theorem encodeTestPackage_eq {z : Deflater σ} {testPackage : List Text}
    {ps : List (List UInt8)} (h : z.pieces testPackage = some ps) :
    encodeTestPackage z testPackage = .ok (Base64.glue ps) := by
  rw [Deflater.pieces] at h
  obtain ⟨stream, hi, h⟩ := Option.bind_eq_some_iff.mp h
  obtain ⟨⟨qs, last⟩, hq, h⟩ := Option.bind_eq_some_iff.mp h
  obtain ⟨deflated, hf, rfl⟩ := Option.map_eq_some_iff.mp h
  obtain ⟨out, hout, hstrip⟩ := deflateLines_eq [] hq
  dsimp only at hf
  rw [encodeTestPackage, hi]
  simp only [hout, bind, Except.bind, hf]
  have hglue : Base64.glue (qs ++ [deflated]) = Base64.glue qs ++ Base64.encode deflated := by
    simp [Base64.glue]
  rw [stripLineEnds_append, stripLineEnds_encodeBase64, hstrip, hglue]
  rfl

/-! ## Decoding it again -/

/-- The record that is built decodes, in one go, to the bytes of the compressor, inflates to
the transformed package, and holds no padding before its end. -/
def Decodes (inflate : List UInt8 → Option Text) (built : Except Die Data) (bytes : List UInt8)
    (package : Text) : Prop :=
  ∃ d, built = .ok d ∧ Base64.decode d.specificationXml = some bytes ∧
    (Base64.decode d.specificationXml).bind inflate = some package ∧
    Base64.PaddingAtEnd d.specificationXml

/-- The uploaded package decodes to what the compressor produced exactly when every piece that
another byte still follows is a whole number of three-byte groups. -/
theorem specificationXml_decodes_iff (z : Deflater σ) (inflate : List UInt8 → Option Text)
    (e : Session) (s : Scan) (pieces : List (List UInt8))
    (hpieces : z.pieces s.testPackage = some pieces)
    (hinflate : inflate pieces.flatten = some s.testPackage.flatten) :
    Decodes inflate ((encodeTestPackage z s.testPackage).map (buildData e s)) pieces.flatten
      s.testPackage.flatten ↔ Base64.Aligned pieces := by
  have hdata : (encodeTestPackage z s.testPackage).map (buildData e s)
      = .ok (buildData e s (Base64.glue pieces)) := by
    rw [encodeTestPackage_eq hpieces]
    rfl
  have hspec : (buildData e s (Base64.glue pieces)).specificationXml = Base64.glue pieces := rfl
  constructor
  · rintro ⟨d, hd, hdecode, -, -⟩
    rw [hdata, Except.ok.injEq] at hd
    subst hd
    rw [hspec] at hdecode
    exact Base64.decode_glued_iff.mp hdecode
  · intro h
    have hdecode := Base64.decode_glued_iff.mpr h
    refine ⟨_, hdata, ?_, ?_, ?_⟩
    · rw [hspec, hdecode]
    · rw [hspec, hdecode, Option.bind_some, hinflate]
    · rw [hspec]
      exact Base64.padding_glued_iff.mpr h

/-! ## What the compressor does -/

/-- `Compress::Zlib` on a package of one short line: the first call hands out the header of the
stream, the flush everything else. -/
def shortStream : Deflater Unit where
  init := some ()
  deflate _ _ := some ([0x78, 0x9c], ())
  flush _ := some [0xb3, 0x49, 0xd4, 0xb7, 0xe3, 0x02, 0x00, 0x03, 0xc8, 0x01, 0x15]

/-- The line that stream holds. -/
def shortLine : Text := ['<', 'a', '/', '>', '\n']

def inflateShort (bytes : List UInt8) : Option Text :=
  if bytes = [0x78, 0x9c, 0xb3, 0x49, 0xd4, 0xb7, 0xe3, 0x02, 0x00, 0x03, 0xc8, 0x01, 0x15]
  then some shortLine else none

def shortScan : Scan := { Scan.initial with testPackage := [shortLine] }

def shortSession : Session where
  tenantId := none
  itemBankParam := none
  executeParam := true
  testSpecBankUri := []
  testSpecBankAccessToken := none
  answer _ := none

theorem specificationXml_decodes_iff_short :
    Decodes inflateShort
      ((encodeTestPackage shortStream shortScan.testPackage).map (buildData shortSession shortScan))
      ([[0x78, 0x9c], [0xb3, 0x49, 0xd4, 0xb7, 0xe3, 0x02, 0x00, 0x03, 0xc8, 0x01, 0x15]] :
        List (List UInt8)).flatten shortLine ↔
    Base64.Aligned [[0x78, 0x9c],
      [0xb3, 0x49, 0xd4, 0xb7, 0xe3, 0x02, 0x00, 0x03, 0xc8, 0x01, 0x15]] :=
  specificationXml_decodes_iff shortStream inflateShort shortSession shortScan _ rfl (by decide)

/-- The header is two bytes, so its padding stands in front of everything else. -/
theorem short_package_not_decoded :
    ¬ ∀ (z : Deflater Unit) (inflate : List UInt8 → Option Text) (e : Session) (s : Scan)
      (pieces : List (List UInt8)), z.pieces s.testPackage = some pieces →
      inflate pieces.flatten = some s.testPackage.flatten →
      Decodes inflate ((encodeTestPackage z s.testPackage).map (buildData e s)) pieces.flatten
        s.testPackage.flatten := by
  intro h
  obtain ⟨d, hd, hdecode, -, -⟩ := h shortStream inflateShort shortSession shortScan
    [[0x78, 0x9c], [0xb3, 0x49, 0xd4, 0xb7, 0xe3, 0x02, 0x00, 0x03, 0xc8, 0x01, 0x15]] rfl
    (by decide)
  have hencoded : encodeTestPackage shortStream shortScan.testPackage = .ok (Base64.glue
      [[0x78, 0x9c], [0xb3, 0x49, 0xd4, 0xb7, 0xe3, 0x02, 0x00, 0x03, 0xc8, 0x01, 0x15]]) :=
    encodeTestPackage_eq rfl
  rw [hencoded] at hd
  simp only [Except.map, Except.ok.injEq] at hd
  subst hd
  exact absurd hdecode (by decide)

end Package
end TdsAdmin
