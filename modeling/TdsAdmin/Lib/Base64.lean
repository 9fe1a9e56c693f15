import TdsAdmin.Lib.Text

/-!
# Base64, RFC 4648 §4

`encode` writes three bytes as four letters and pads the last group with `=`. `decode` is the
strict reader the RFC asks for: `=` is no letter of the alphabet, so it is accepted only where
`encode` puts it, in the last group.

The point of the file is what happens to texts encoded *piece by piece* and glued together.
`decode_glued_iff`: the glued text decodes to the glued bytes exactly when every piece that
something still follows is a whole number of groups, and `padding_glued_iff` says the same of
the place of the padding.
-/

set_option autoImplicit false

namespace TdsAdmin
namespace Base64

/-- The letter for six bits. -/
def letter (n : Nat) : Char :=
  if n < 26 then Char.ofNat (65 + n)
  else if n < 52 then Char.ofNat (97 + (n - 26))
  else if n < 62 then Char.ofNat (48 + (n - 52))
  else if n = 62 then '+' else '/'

/-- The six bits of a letter; `=` and everything else has none. -/
def value (c : Char) : Option Nat :=
  if 65 ≤ c.toNat ∧ c.toNat ≤ 90 then some (c.toNat - 65)
  else if 97 ≤ c.toNat ∧ c.toNat ≤ 122 then some (c.toNat - 97 + 26)
  else if 48 ≤ c.toNat ∧ c.toNat ≤ 57 then some (c.toNat - 48 + 52)
  else if c = '+' then some 62
  else if c = '/' then some 63
  else none

def encode : List UInt8 → Text
  | [] => []
  | [a] => [letter (a.toNat / 4), letter (a.toNat % 4 * 16), '=', '=']
  | [a, b] =>
      [letter (a.toNat / 4), letter (a.toNat % 4 * 16 + b.toNat / 16),
        letter (b.toNat % 16 * 4), '=']
  | a :: b :: c :: rest =>
      letter (a.toNat / 4) :: letter (a.toNat % 4 * 16 + b.toNat / 16) ::
        letter (b.toNat % 16 * 4 + c.toNat / 64) :: letter (c.toNat % 64) :: encode rest

def firstByte (x y : Nat) : UInt8 := UInt8.ofNat (x * 4 + y / 16)
def secondByte (y z : Nat) : UInt8 := UInt8.ofNat (y % 16 * 16 + z / 4)
def thirdByte (z w : Nat) : UInt8 := UInt8.ofNat (z % 4 * 64 + w)

def decode : Text → Option (List UInt8)
  | [] => some []
  | a :: b :: c :: d :: rest =>
      if d = '=' ∧ rest = [] then
        if c = '=' then do
          let x ← value a
          let y ← value b
          return [firstByte x y]
        else do
          let x ← value a
          let y ← value b
          let z ← value c
          return [firstByte x y, secondByte y z]
      else do
        let x ← value a
        let y ← value b
        let z ← value c
        let w ← value d
        let more ← decode rest
        return firstByte x y :: secondByte y z :: thirdByte z w :: more
  | _ => none

/-! ## Letters and values -/

theorem value_letter {n : Nat} (h : n < 64) : value (letter n) = some n := by
  have hall : ∀ n < 64, value (letter n) = some n := by decide
  exact hall n h

theorem letter_ne_pad {n : Nat} (h : n < 64) : letter n ≠ '=' := by
  have hall : ∀ n < 64, letter n ≠ '=' := by decide
  exact hall n h

@[simp] theorem value_pad : value '=' = none := by decide

theorem firstByte_eq (a b : UInt8) :
    firstByte (a.toNat / 4) (a.toNat % 4 * 16 + b.toNat / 16) = a := by
  have hb := b.toNat_lt
  rw [firstByte, show a.toNat / 4 * 4 + (a.toNat % 4 * 16 + b.toNat / 16) / 16 = a.toNat by omega]
  exact UInt8.ofNat_toNat

theorem firstByte_eq_last (a : UInt8) : firstByte (a.toNat / 4) (a.toNat % 4 * 16) = a := by
  rw [firstByte, show a.toNat / 4 * 4 + a.toNat % 4 * 16 / 16 = a.toNat by omega]
  exact UInt8.ofNat_toNat

theorem secondByte_eq (a b c : UInt8) :
    secondByte (a.toNat % 4 * 16 + b.toNat / 16) (b.toNat % 16 * 4 + c.toNat / 64) = b := by
  have hb := b.toNat_lt
  have hc := c.toNat_lt
  rw [secondByte, show (a.toNat % 4 * 16 + b.toNat / 16) % 16 * 16 +
    (b.toNat % 16 * 4 + c.toNat / 64) / 4 = b.toNat by omega]
  exact UInt8.ofNat_toNat

theorem secondByte_eq_last (a b : UInt8) :
    secondByte (a.toNat % 4 * 16 + b.toNat / 16) (b.toNat % 16 * 4) = b := by
  have hb := b.toNat_lt
  rw [secondByte, show (a.toNat % 4 * 16 + b.toNat / 16) % 16 * 16 +
    b.toNat % 16 * 4 / 4 = b.toNat by omega]
  exact UInt8.ofNat_toNat

theorem thirdByte_eq (b c : UInt8) :
    thirdByte (b.toNat % 16 * 4 + c.toNat / 64) (c.toNat % 64) = c := by
  have hc := c.toNat_lt
  rw [thirdByte, show (b.toNat % 16 * 4 + c.toNat / 64) % 4 * 64 + c.toNat % 64 = c.toNat by omega]
  exact UInt8.ofNat_toNat

/-! ## One group at a time -/

/-- A full group comes off the front of whatever follows it. -/
theorem decode_group (a b c : UInt8) (s : Text) :
    decode (letter (a.toNat / 4) :: letter (a.toNat % 4 * 16 + b.toNat / 16) ::
        letter (b.toNat % 16 * 4 + c.toNat / 64) :: letter (c.toNat % 64) :: s)
      = (decode s).map fun more => a :: b :: c :: more := by
  have ha := a.toNat_lt
  have hb := b.toNat_lt
  have hc := c.toNat_lt
  rw [decode, if_neg fun h => letter_ne_pad (by omega) h.1, value_letter (by omega),
    value_letter (by omega), value_letter (by omega), value_letter (by omega)]
  simp only [Option.bind_eq_bind, Option.bind_some, firstByte_eq, secondByte_eq, thirdByte_eq]
  cases decode s <;> rfl

theorem decode_encode_append : ∀ {p : List UInt8} {s : Text}, p.length % 3 = 0 →
    decode (encode p ++ s) = (decode s).map fun more => p ++ more
  | [], s, _ => by simp [encode]
  | [a], s, h => absurd h (by simp)
  | [a, b], s, h => absurd h (by simp)
  | a :: b :: c :: rest, s, h => by
    have hrest : rest.length % 3 = 0 := by simp only [List.length_cons] at h; omega
    simp only [encode, List.cons_append, decode_group, decode_encode_append hrest,
      Option.map_map]
    rfl

/-- What `encode` writes, `decode` reads. -/
theorem decode_encode : ∀ p : List UInt8, decode (encode p) = some p
  | [] => rfl
  | [a] => by
    have ha := a.toNat_lt
    simp only [encode, decode, and_self, ↓reduceIte]
    rw [value_letter (by omega), value_letter (by omega)]
    simp [firstByte_eq_last]
  | [a, b] => by
    have ha := a.toNat_lt
    have hb := b.toNat_lt
    simp only [encode, decode, and_self, ↓reduceIte]
    rw [if_neg (letter_ne_pad (by omega)), value_letter (by omega), value_letter (by omega),
      value_letter (by omega)]
    simp [firstByte_eq, secondByte_eq_last]
  | a :: b :: c :: rest => by
    simp only [encode, decode_group, decode_encode rest]
    rfl

/-- A padded group with anything after it is not base64. -/
theorem decode_padded_append : ∀ {p : List UInt8} {s : Text}, p.length % 3 ≠ 0 → s ≠ [] →
    decode (encode p ++ s) = none
  | [], s, h, _ => absurd rfl h
  | [a], s, _, hs => by
    simp only [encode, List.cons_append, List.nil_append, decode, hs, and_false, ↓reduceIte,
      value_pad]
    cases value (letter (a.toNat / 4)) <;> cases value (letter (a.toNat % 4 * 16)) <;> rfl
  | [a, b], s, _, hs => by
    simp only [encode, List.cons_append, List.nil_append, decode, hs, and_false, ↓reduceIte,
      value_pad]
    cases value (letter (a.toNat / 4)) <;>
      cases value (letter (a.toNat % 4 * 16 + b.toNat / 16)) <;>
      cases value (letter (b.toNat % 16 * 4)) <;> rfl
  | a :: b :: c :: rest, s, h, hs => by
    have hrest : rest.length % 3 ≠ 0 := by simp only [List.length_cons] at h; omega
    simp only [encode, List.cons_append, decode_group, decode_padded_append hrest hs]
    rfl

theorem encode_eq_nil {p : List UInt8} : encode p = [] ↔ p = [] := by
  match p with
  | [] => simp [encode]
  | [a] => simp [encode]
  | [a, b] => simp [encode]
  | a :: b :: c :: rest => simp [encode]

/-! ## Pieces glued together -/

/-- The pieces, each encoded on its own. -/
def glue (pieces : List (List UInt8)) : Text := (pieces.map encode).flatten

/-- Every piece that something follows is a whole number of three-byte groups. -/
def Aligned (pieces : List (List UInt8)) : Prop :=
  ∀ before p after, pieces = before ++ p :: after → after.flatten ≠ [] → p.length % 3 = 0

theorem glue_eq_nil {pieces : List (List UInt8)} : glue pieces = [] ↔ pieces.flatten = [] := by
  simp [glue, encode_eq_nil]

theorem Aligned.head {p : List UInt8} {ps : List (List UInt8)} (h : Aligned (p :: ps))
    (hps : ps.flatten ≠ []) : p.length % 3 = 0 := h [] p ps rfl hps

theorem aligned_cons {p : List UInt8} {ps : List (List UInt8)} :
    Aligned (p :: ps) ↔ (ps.flatten ≠ [] → p.length % 3 = 0) ∧ Aligned ps := by
  constructor
  · exact fun h => ⟨h.head, fun before q after hq => h (p :: before) q after (by simp [hq])⟩
  · rintro ⟨hp, hps⟩ before q after hq hafter
    cases before with
    | nil =>
      simp only [List.nil_append, List.cons.injEq] at hq
      obtain ⟨rfl, rfl⟩ := hq
      exact hp hafter
    | cons b before =>
      simp only [List.cons_append, List.cons.injEq] at hq
      exact hps before q after hq.2 hafter

/-- **Glued texts decode to the glued bytes exactly when the pieces are aligned.** -/
theorem decode_glued_iff : ∀ {pieces : List (List UInt8)},
    decode (glue pieces) = some pieces.flatten ↔ Aligned pieces
  | [] => by
    simp only [glue, List.map_nil, List.flatten_nil, decode, true_iff]
    intro before p after h
    simp at h
  | p :: ps => by
    have ih : decode (glue ps) = some ps.flatten ↔ Aligned ps := decode_glued_iff
    have hglue : glue (p :: ps) = encode p ++ glue ps := rfl
    rw [aligned_cons, hglue, List.flatten_cons]
    by_cases hps : ps.flatten = []
    · rw [glue_eq_nil.mpr hps, List.append_nil, hps, List.append_nil, decode_encode]
      rw [glue_eq_nil.mpr hps, hps] at ih
      simpa using ih.mp rfl
    · by_cases hp : p.length % 3 = 0
      · rw [decode_encode_append hp]
        simp only [hp, implies_true, true_and, ← ih]
        cases decode (glue ps) <;> simp
      · rw [decode_padded_append hp (mt glue_eq_nil.mp hps)]
        simp [hps, hp]

/-! ## Where the padding is -/

/-- `=` occurs at the very end only. -/
def PaddingAtEnd (s : Text) : Prop := ∀ u v, s = u ++ '=' :: v → ∀ c ∈ v, c = '='

theorem PaddingAtEnd.of_cons {c : Char} {s : Text} (h : PaddingAtEnd (c :: s)) :
    PaddingAtEnd s := fun u v hs => h (c :: u) v (by simp [hs])

theorem PaddingAtEnd.cons {c : Char} {s : Text} (hc : c ≠ '=') (h : PaddingAtEnd s) :
    PaddingAtEnd (c :: s) := by
  intro u v hs
  cases u with
  | nil => exact absurd (List.cons.inj hs).1 hc
  | cons d u => exact h u v (List.cons.inj hs).2

theorem paddingAtEnd_encode_append : ∀ {p : List UInt8} {s : Text}, p.length % 3 = 0 →
    (PaddingAtEnd (encode p ++ s) ↔ PaddingAtEnd s)
  | [], s, _ => by simp [encode]
  | [a], s, h => absurd h (by simp)
  | [a, b], s, h => absurd h (by simp)
  | a :: b :: c :: rest, s, h => by
    have hrest : rest.length % 3 = 0 := by simp only [List.length_cons] at h; omega
    have ha := a.toNat_lt
    have hb := b.toNat_lt
    have hc := c.toNat_lt
    rw [encode]
    simp only [List.cons_append]
    constructor
    · exact fun hp => (paddingAtEnd_encode_append hrest).mp hp.of_cons.of_cons.of_cons.of_cons
    · exact fun hp => ((((paddingAtEnd_encode_append hrest).mpr hp).cons
        (letter_ne_pad (by omega))).cons (letter_ne_pad (by omega))).cons
        (letter_ne_pad (by omega)) |>.cons (letter_ne_pad (by omega))

theorem paddingAtEnd_encode : ∀ p : List UInt8, PaddingAtEnd (encode p)
  | [] => by intro u v h; simp [encode] at h
  | [a] => by
    have ha := a.toNat_lt
    refine PaddingAtEnd.cons (letter_ne_pad (by omega)) (PaddingAtEnd.cons
      (letter_ne_pad (by omega)) ?_)
    intro u v h c hc
    have hmem : c ∈ ['=', '='] := by rw [h]; simp [hc]
    simpa using hmem
  | [a, b] => by
    have ha := a.toNat_lt
    have hb := b.toNat_lt
    refine PaddingAtEnd.cons (letter_ne_pad (by omega)) (PaddingAtEnd.cons
      (letter_ne_pad (by omega)) (PaddingAtEnd.cons (letter_ne_pad (by omega)) ?_))
    intro u v h c hc
    have hmem : c ∈ ['='] := by rw [h]; simp [hc]
    simpa using hmem
  | a :: b :: c :: rest => by
    have hcons := paddingAtEnd_encode_append (p := [a, b, c]) (s := encode rest) (by simp)
    exact hcons.mpr (paddingAtEnd_encode rest)

/-- The text of a non-empty list of bytes starts with a letter. -/
theorem encode_head {p : List UInt8} (h : p ≠ []) : ∃ c s, encode p = c :: s ∧ c ≠ '=' := by
  match p, h with
  | [a], _ =>
    have ha := a.toNat_lt
    exact ⟨_, _, rfl, letter_ne_pad (by omega)⟩
  | [a, b], _ =>
    have ha := a.toNat_lt
    exact ⟨_, _, rfl, letter_ne_pad (by omega)⟩
  | a :: b :: c :: rest, _ =>
    have ha := a.toNat_lt
    exact ⟨_, _, rfl, letter_ne_pad (by omega)⟩

/-- A text that is not a whole number of groups ends in padding. -/
theorem encode_padded : ∀ {p : List UInt8}, p.length % 3 ≠ 0 → ∃ u, encode p = u ++ ['=']
  | [], h => absurd rfl h
  | [a], _ => ⟨[_, _, '='], rfl⟩
  | [a, b], _ => ⟨[_, _, _], rfl⟩
  | a :: b :: c :: rest, h => by
    have hrest : rest.length % 3 ≠ 0 := by simp only [List.length_cons] at h; omega
    obtain ⟨u, hu⟩ := encode_padded hrest
    exact ⟨_ :: _ :: _ :: _ :: u, by rw [encode, hu]; rfl⟩

theorem glue_head : ∀ {pieces : List (List UInt8)}, pieces.flatten ≠ [] →
    ∃ c s, glue pieces = c :: s ∧ c ≠ '='
  | [], h => absurd rfl h
  | p :: ps, h => by
    by_cases hp : p = []
    · subst hp
      have hps : ps.flatten ≠ [] := by simpa using h
      have ih : ∃ c s, glue ps = c :: s ∧ c ≠ '=' := glue_head hps
      exact ih
    · obtain ⟨c, s, hs, hc⟩ := encode_head hp
      exact ⟨c, s ++ glue ps, by simp [glue, hs], hc⟩

/-- **The padding of glued texts is at the very end exactly when the pieces are aligned.** -/
theorem padding_glued_iff : ∀ {pieces : List (List UInt8)},
    PaddingAtEnd (glue pieces) ↔ Aligned pieces
  | [] => by
    constructor
    · intro _ before p after h
      simp at h
    · intro _ u v h
      simp [glue] at h
  | p :: ps => by
    have ih : PaddingAtEnd (glue ps) ↔ Aligned ps := padding_glued_iff
    have hglue : glue (p :: ps) = encode p ++ glue ps := rfl
    rw [aligned_cons, hglue]
    by_cases hp : p.length % 3 = 0
    · rw [paddingAtEnd_encode_append hp, ih]
      simp [hp]
    · by_cases hps : ps.flatten = []
      · rw [glue_eq_nil.mpr hps] at ih ⊢
        rw [List.append_nil]
        have hnil : PaddingAtEnd [] := by intro u v h; simp at h
        simp only [paddingAtEnd_encode p, hps, ne_eq, not_true_eq_false, false_implies,
          true_and, true_iff]
        exact ih.mp hnil
      · obtain ⟨u, hu⟩ := encode_padded hp
        obtain ⟨c, s, hs, hc⟩ := glue_head hps
        constructor
        · intro h
          exact absurd (h u (c :: s) (by simp [hu, hs]) c (by simp)) hc
        · exact fun h => absurd (h.1 hps) hp

end Base64
end TdsAdmin
