import Solwright.Proofs.Json.Members
import Solwright.Proofs.Json.ObjectText

/-! What is read is made of words, numerals and texts, put into arrays and objects. What holds of the former, and of
arrays and objects if it holds of all that is in them, names included, holds of every value that is read. -/

namespace Solwright.Json

open Text Reader

variable {limit : Nat} {P : Json → Prop} {r r' : Reader} {t : Token} {ts : List Token} {v : Json}
  {fs : List Frame} {s : List Char}

/-- A property that all words, numerals and texts have and that arrays and objects inherit. -/
structure IsInherited (P : Json → Prop) : Prop where
  atom : ∀ {c a v}, IsAtom c a v → P v
  text : ∀ {body ns}, Spells body [] ns → P (.ofCodes ns.reverse)
  arr : ∀ {vs}, (∀ v ∈ vs, P v) → P (.arr vs)
  obj : ∀ {ms : List (RawText × Json)}, (∀ m ∈ ms, P m.1.json ∧ P m.2) → P (.obj ms)

/-- What a token stands for has a property, if it stands for a value. -/
def Token.Has (P : Json → Prop) : Token → Prop
  | .scalar v => P v
  | .text ns => P (.ofCodes ns)
  | _ => True

/-- The names and values of members. -/
def memberValues (ms : List (RawText × Json)) : List Json :=
  ms.flatMap fun m => [m.1.json, m.2]

theorem forall_mem_memberValues {ms : List (RawText × Json)} :
    (∀ v ∈ memberValues ms, P v) ↔ ∀ m ∈ ms, P m.1.json ∧ P m.2 := by
  rw [memberValues, List.forall_mem_flatMap]
  simp

/-- The values that a frame has so far. -/
def Frame.values : Frame → List Json
  | .array vs => vs
  | .object ms key => key.json :: memberValues ms

/-- The values that are there before what is expected. -/
def Expecting.values : Expecting → List Json
  | .name ms => memberValues ms
  | .colon ms key => key.json :: memberValues ms
  | .nothing v => [v]
  | _ => []

/-- All values that have been read so far have a property. -/
structure Reader.All (P : Json → Prop) (r : Reader) : Prop where
  frames : ∀ f ∈ r.frames, ∀ v ∈ f.values, P v
  expecting : ∀ v ∈ r.expecting.values, P v

theorem Reader.all_complete (hfs : ∀ f ∈ fs, ∀ v ∈ f.values, P v) (hv : P v) : All P (complete v fs) := by
  cases fs with
  | nil => exact ⟨by simp [complete], by simpa [complete, Expecting.values] using hv⟩
  | cons f fs =>
    obtain ⟨hf, hrest⟩ := List.forall_mem_cons.1 hfs
    cases f with
    | array vs =>
      exact ⟨List.forall_mem_cons.2 ⟨List.forall_mem_cons.2 ⟨hv, hf⟩, hrest⟩, by simp [complete, Expecting.values]⟩
    | object ms key =>
      obtain ⟨hkey, hms⟩ := List.forall_mem_cons.1 hf
      rw [forall_mem_memberValues] at hms
      refine ⟨List.forall_mem_cons.2 ⟨List.forall_mem_cons.2 ⟨hkey, ?_⟩, hrest⟩, by simp [complete, Expecting.values]⟩
      refine forall_mem_memberValues.2 fun m hm => ?_
      rcases mem_putMember hm with rfl | hm
      · exact ⟨hkey, hv⟩
      · exact hms m hm

/-- A token that stands for a value with the property, or for none, leaves it so. -/
theorem Reader.All.moves (hP : IsInherited P) (hr : r.All P) (ht : t.Has P) (h : Moves limit r t r') : r'.All P := by
  obtain ⟨hfs, he⟩ := hr
  cases h with
  | scalar _ => exact all_complete hfs ht
  | text _ => exact all_complete hfs ht
  | openArray _ _ => exact ⟨List.forall_mem_cons.2 ⟨nofun, hfs⟩, nofun⟩
  | openObject _ _ =>
    have hempty : P (RawText.formed "").json := hP.text .nil
    exact ⟨List.forall_mem_cons.2 ⟨List.forall_mem_singleton.2 hempty, hfs⟩, nofun⟩
  | closeEmptyArray => exact all_complete (List.forall_mem_cons.1 hfs).2 (hP.arr nofun)
  | closeEmptyObject => exact all_complete (List.forall_mem_cons.1 hfs).2 (hP.obj nofun)
  | firstName =>
    exact ⟨fun f hf => hfs f (List.mem_of_mem_drop hf), List.forall_mem_singleton.2 (json_ofCodes _ ▸ ht)⟩
  | name => exact ⟨hfs, List.forall_mem_cons.2 ⟨json_ofCodes _ ▸ ht, he⟩⟩
  | colon => exact ⟨List.forall_mem_cons.2 ⟨he, hfs⟩, nofun⟩
  | closeArray =>
    obtain ⟨hf, hfs⟩ := List.forall_mem_cons.1 hfs
    exact all_complete hfs (hP.arr fun v hv => hf v (List.mem_reverse.1 hv))
  | nextItem => exact ⟨hfs, nofun⟩
  | closeObject =>
    obtain ⟨hf, hfs⟩ := List.forall_mem_cons.1 hfs
    exact all_complete hfs (hP.obj (forall_mem_memberValues.1 (List.forall_mem_cons.1 hf).2))
  | nextMember =>
    obtain ⟨hf, hfs⟩ := List.forall_mem_cons.1 hfs
    exact ⟨hfs, (List.forall_mem_cons.1 hf).2⟩

theorem Reader.All.reads (hP : IsInherited P) (hr : r.All P) (hts : ∀ t ∈ ts, t.Has P)
    (h : Reads limit r ts v) : P v := by
  induction h with
  | done => exact hr.expecting _ List.mem_cons_self
  | move hm _ ih =>
    obtain ⟨ht, hts⟩ := List.forall_mem_cons.1 hts
    exact ih (hr.moves hP ht hm) hts

theorem Lexes.has {rest : List Char} (hP : IsInherited P) (h : Lexes s ts rest) : ∀ t ∈ ts, t.Has P := by
  induction h with
  | done => exact nofun
  | space _ _ ih => exact ih
  | mark ht _ ih =>
    refine List.forall_mem_cons.2 ⟨?_, ih⟩
    have hmark := isMark_of_mark? ht
    unfold Token.Has
    split
    · cases hmark
    · cases hmark
    · trivial
  | text hb _ ih => exact List.forall_mem_cons.2 ⟨hP.text hb, ih⟩
  | atom ha _ _ ih => exact List.forall_mem_cons.2 ⟨hP.atom ha, ih⟩

/-- What is read has every such property. -/
theorem IsInherited.read (hP : IsInherited P) (h : Json.read limit s = .ok v) : P v := by
  unfold Json.read at h
  split at h
  · cases h
  obtain ⟨ts, hl, hreads⟩ := readDecoded_eq_ok.1 h
  have hstart : All P .start := ⟨nofun, nofun⟩
  exact hstart.reads hP (hl.has hP) hreads

end Solwright.Json
