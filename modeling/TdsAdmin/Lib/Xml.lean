import TdsAdmin.Lib.Fields

/-!
# Reading XML

A document is cut at its angle brackets: every `<` is where markup begins, and the text behind the
markup goes as far as the next one (`Chunk`). This is what a reader makes of a document without
entities whose attributes hold no angle bracket, and such a document is read back as it was written
(`chunks_render`). `leaf`, `enter` and `leave` take a document apart from the front.
-/

set_option autoImplicit false

namespace TdsAdmin
namespace Xml

/-- What is between two angle brackets, and the text behind it. -/
structure Chunk where
  markup : Text
  text : Text
  deriving DecidableEq

def Chunk.render (p : Chunk) : Text := '<' :: (p.markup ++ '>' :: p.text)

def render (ps : List Chunk) : Text := ps.flatMap Chunk.render

/-- `s` comes behind a `<`. -/
def readChunk (s : Text) : Option Chunk :=
  match s.dropWhile (· != '>') with
  | [] => none
  | _ :: text => some ⟨s.takeWhile (· != '>'), text⟩

/-- Nothing comes in front of the first `<`. -/
def chunks (s : Text) : Option (List Chunk) :=
  match s.splitOn '<' with
  | [] :: rest => rest.mapM readChunk
  | _ => none

/-! ## What is written is read -/

/-- Neither the markup nor the text is cut in two. -/
def Chunk.Whole (p : Chunk) : Prop := '<' ∉ p.markup ∧ '>' ∉ p.markup ∧ '<' ∉ p.text

instance : DecidablePred Chunk.Whole :=
  fun p => inferInstanceAs (Decidable ('<' ∉ p.markup ∧ '>' ∉ p.markup ∧ '<' ∉ p.text))

theorem readChunk_body {p : Chunk} (h : p.Whole) :
    readChunk (p.markup ++ '>' :: p.text) = some p := by
  have hbefore : ∀ c ∈ p.markup, (c != '>') = true := by
    intro c hc
    rw [bne_iff_ne]
    rintro rfl
    exact h.2.1 hc
  have hdrop : (p.markup ++ '>' :: p.text).dropWhile (· != '>') = '>' :: p.text := by
    rw [List.dropWhile_append_of_pos hbefore]
    rfl
  have htake : (p.markup ++ '>' :: p.text).takeWhile (· != '>') = p.markup := by
    rw [List.takeWhile_append_of_pos hbefore]
    simp
  rw [readChunk, hdrop, htake]

theorem render_eq (ps : List Chunk) :
    render ps = ['<'].intercalate ([] :: ps.map fun p => p.markup ++ '>' :: p.text) := by
  rw [Fields.intercalate_cons, List.flatMap_map]
  rfl

theorem mapM_readChunk {ps : List Chunk} (h : ∀ p ∈ ps, p.Whole) :
    (ps.map fun p => p.markup ++ '>' :: p.text).mapM readChunk = some ps := by
  induction ps with
  | nil => rfl
  | cons p ps ih =>
    rw [List.map_cons, List.mapM_cons, readChunk_body (h p List.mem_cons_self),
      ih fun q hq => h q (List.mem_cons_of_mem p hq)]
    rfl

/-- **A document is read back as it was written.** -/
theorem chunks_render {ps : List Chunk} (h : ∀ p ∈ ps, p.Whole) : chunks (render ps) = some ps := by
  have hwhole : ∀ s ∈ [] :: ps.map (fun p => p.markup ++ '>' :: p.text), '<' ∉ s := by
    intro s hs
    rcases List.mem_cons.mp hs with rfl | hs
    · exact List.not_mem_nil
    · obtain ⟨p, hp, rfl⟩ := List.mem_map.mp hs
      have hp := h p hp
      simp [hp.1, hp.2.2]
  rw [chunks, render_eq, List.splitOn_intercalate '<' hwhole (List.cons_ne_nil _ _)]
  exact mapM_readChunk h

/-! ## Taking a document apart -/

/-- Markup with nothing behind it. -/
def enter (markup : Text) : List Chunk → Option (List Chunk)
  | p :: rest => if p = ⟨markup, []⟩ then some rest else none
  | [] => none

/-- An element with nothing in it but its text. -/
def leaf (name : Text) : List Chunk → Option (Text × List Chunk)
  | p :: q :: rest =>
      if p.markup = name ∧ q = ⟨'/' :: name, []⟩ then some (p.text, rest) else none
  | _ => none

/-- The two chunks of such an element. -/
def leafChunks (name text : Text) : List Chunk := [⟨name, text⟩, ⟨'/' :: name, []⟩]

@[simp] theorem enter_cons (markup : Text) (rest : List Chunk) :
    enter markup (⟨markup, []⟩ :: rest) = some rest := if_pos rfl

@[simp] theorem leaf_append (name text : Text) (rest : List Chunk) :
    leaf name (leafChunks name text ++ rest) = some (text, rest) := if_pos ⟨rfl, rfl⟩

theorem leafChunks_whole {name text : Text} (hname : (⟨'/' :: name, []⟩ : Chunk).Whole)
    (htext : '<' ∉ text) : ∀ p ∈ leafChunks name text, p.Whole := by
  have hopen : '<' ∉ name ∧ '>' ∉ name := by
    simpa [Chunk.Whole] using hname
  simp only [leafChunks, List.forall_mem_cons]
  exact ⟨⟨hopen.1, hopen.2, htext⟩, hname, List.forall_mem_nil _⟩

end Xml
end TdsAdmin
