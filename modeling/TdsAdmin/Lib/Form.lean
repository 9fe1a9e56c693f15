import TdsAdmin.Lib.Text

/-!
# Form data

`application/x-www-form-urlencoded` as a server reads it: the pieces between the `&`, each cut at
its first `=`, with `+` for a space and `%` in front of the two hexadecimal digits of a byte. A
`%` that is not followed by two digits stands for itself.

`decode_pairs` is the reading of a text that was put together without any encoding: it comes
back as it was when no name and no value holds a character the format uses.
-/

set_option autoImplicit false

namespace TdsAdmin
namespace Form

/-! ## Decoding -/

def hexValue (c : Char) : Option Nat :=
  if '0' ≤ c ∧ c ≤ '9' then some (c.toNat - 48)
  else if 'a' ≤ c ∧ c ≤ 'f' then some (c.toNat - 87)
  else if 'A' ≤ c ∧ c ≤ 'F' then some (c.toNat - 55)
  else none

/-- The byte of two hexadecimal digits. -/
def hexByte (a b : Char) : Option Char :=
  (hexValue a).bind fun high => (hexValue b).map fun low => Char.ofNat (16 * high + low)

def decodeText : Text → Text
  | [] => []
  | '%' :: a :: b :: s =>
      match hexByte a b with
      | some byte => byte :: decodeText s
      | none => '%' :: decodeText (a :: b :: s)
  | '+' :: s => ' ' :: decodeText s
  | c :: s => c :: decodeText s

/-- A name and a value, cut at the first `=`. -/
def decodePair (piece : Text) : Text × Text :=
  (decodeText (piece.takeWhile (· != '=')), decodeText ((piece.dropWhile (· != '=')).drop 1))

def decode (s : Text) : List (Text × Text) :=
  ((s.splitOn '&').filter (!·.isEmpty)).map decodePair

/-! ## Text that needs no encoding -/

/-- A name and a value written one after the other. -/
def pairText (p : Text × Text) : Text := p.1 ++ '=' :: p.2

/-- A character that the format gives no meaning to inside a value. -/
def isPlain (c : Char) : Bool := c != '&' && c != '+' && c != '%'

theorem decodeText_plain {v : Text} (h : v.all isPlain = true) : decodeText v = v := by
  induction v with
  | nil => rfl
  | cons c v ih =>
    simp only [List.all_cons, Bool.and_eq_true] at h
    obtain ⟨hc, hv⟩ := h
    simp only [isPlain, Bool.and_eq_true, bne_iff_ne] at hc
    rw [decodeText.eq_4, ih hv]
    · intro a b s hpercent
      exact absurd hpercent hc.2
    · intro hplus
      exact absurd hplus hc.1.2

theorem decodePair_pairText {p : Text × Text}
    (hname : p.1.all (fun c => isPlain c && c != '=') = true)
    (hvalue : p.2.all isPlain = true) : decodePair (pairText p) = p := by
  have hstop : ∀ c ∈ p.1, (c != '=') = true := by
    intro c hc
    have := List.all_eq_true.mp hname c hc
    simp only [Bool.and_eq_true] at this
    exact this.2
  have hplain : p.1.all isPlain = true := by
    rw [List.all_eq_true]
    intro c hc
    have := List.all_eq_true.mp hname c hc
    simp only [Bool.and_eq_true] at this
    exact this.1
  have htake : (pairText p).takeWhile (· != '=') = p.1 := by
    rw [pairText, List.takeWhile_append_of_pos hstop]
    simp
  have hdrop : (pairText p).dropWhile (· != '=') = '=' :: p.2 := by
    rw [pairText, List.dropWhile_append_of_pos hstop]
    simp
  rw [decodePair, htake, hdrop, List.drop_one, List.tail_cons, decodeText_plain hplain,
    decodeText_plain hvalue]

theorem amp_not_mem_pairText {p : Text × Text}
    (hname : p.1.all (fun c => isPlain c && c != '=') = true)
    (hvalue : p.2.all isPlain = true) : '&' ∉ pairText p := by
  intro hmem
  rcases List.mem_append.mp hmem with h | h
  · exact absurd (List.all_eq_true.mp hname _ h) (by decide)
  · rcases List.mem_cons.mp h with h | h
    · exact absurd h (by decide)
    · exact absurd (List.all_eq_true.mp hvalue _ h) (by decide)

/-- **Pairs written without encoding read back when nothing in them needed it.** -/
theorem decode_pairs {pairs : List (Text × Text)} (hne : pairs ≠ [])
    (hplain : ∀ p ∈ pairs,
      p.1.all (fun c => isPlain c && c != '=') = true ∧ p.2.all isPlain = true) :
    decode (['&'].intercalate (pairs.map pairText)) = pairs := by
  have hamp : ∀ piece ∈ pairs.map pairText, '&' ∉ piece := by
    intro piece hpiece
    obtain ⟨p, hp, rfl⟩ := List.mem_map.mp hpiece
    exact amp_not_mem_pairText (hplain p hp).1 (hplain p hp).2
  have hfull : ∀ piece ∈ pairs.map pairText, (!piece.isEmpty) = true := by
    intro piece hpiece
    obtain ⟨p, -, rfl⟩ := List.mem_map.mp hpiece
    simp [pairText]
  have hback : ∀ p ∈ pairs, (decodePair ∘ pairText) p = p := by
    intro p hp
    exact decodePair_pairText (hplain p hp).1 (hplain p hp).2
  rw [decode, List.splitOn_intercalate '&' hamp (by simpa using hne), List.filter_eq_self.mpr hfull,
    List.map_map, List.map_congr_left hback, List.map_id']

end Form
end TdsAdmin
