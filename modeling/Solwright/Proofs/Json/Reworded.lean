import Mathlib.Data.List.Forall2
import Solwright.Proofs.Json.ObjectText

/-! Reading tokens that differ only in what their texts say. The values they make are alike, and an
object that is not inside anything else has the same names as long as these are not reworded. -/

namespace Solwright.Json

open Solwright.Text Reader

variable {R : List Nat → List Nat → Prop} {kept : Prop}

/-- Tokens alike but for related texts. -/
inductive Token.Reworded (R : List Nat → List Nat → Prop) : Token → Token → Prop
  | mark {t : Token} : t.isMark = true → Reworded R t t
  | scalar {v : Json} : isScalar v = true → Reworded R (.scalar v) (.scalar v)
  | text {ns ns' : List Nat} : R ns ns' → Reworded R (.text ns) (.text ns')

/-- Values alike but for related texts. What is inside objects is not compared. -/
inductive Reworded (R : List Nat → List Nat → Prop) : Json → Json → Prop
  | scalar {v : Json} : isScalar v = true → Reworded R v v
  | text {ns ns' : List Nat} : R ns ns' → Reworded R (ofCodes ns) (ofCodes ns')
  | arr {vs ws : List Json} : List.Forall₂ (Reworded R) vs ws → Reworded R (.arr vs) (.arr ws)
  | obj {ms ns : List (RawText × Json)} : Reworded R (.obj ms) (.obj ns)

theorem ofCodes_cases (ns : List Nat) : (∃ s, ofCodes ns = .str s) ∨ ofCodes ns = .illFormed ns := by
  unfold ofCodes
  split
  · exact .inr rfl
  · exact .inl ⟨_, rfl⟩

theorem reworded_arr {vs : List Json} {w : Json} (h : Reworded R (.arr vs) w) :
    ∃ ws, w = .arr ws ∧ List.Forall₂ (Reworded R) vs ws := by
  generalize hv : Json.arr vs = v at h
  cases h with
  | scalar hscalar =>
    subst hv
    cases hscalar
  | @text ns => rcases ofCodes_cases ns with ⟨s, hs⟩ | hs <;> rw [hs] at hv <;> cases hv
  | arr hvs =>
    cases hv
    exact ⟨_, rfl, hvs⟩
  | obj => cases hv

theorem reworded_null {w : Json} (h : Reworded R .null w) : w = .null := by
  generalize hv : Json.null = v at h
  cases h with
  | scalar => rfl
  | @text ns => rcases ofCodes_cases ns with ⟨s, hs⟩ | hs <;> rw [hs] at hv <;> cases hv
  | arr => cases hv
  | obj => cases hv

theorem reworded_text {ns : List Nat} {w : Json} (h : Reworded R (ofCodes ns) w) :
    ∃ ns₀ ns', ofCodes ns₀ = ofCodes ns ∧ w = ofCodes ns' ∧ R ns₀ ns' := by
  have hcases := ofCodes_cases ns
  generalize hv : ofCodes ns = v at h hcases
  cases h with
  | scalar hscalar => rcases hcases with ⟨s, rfl⟩ | rfl <;> cases hscalar
  | @text ns₀ ns' hns => exact ⟨ns₀, ns', rfl, rfl, hns⟩
  | arr hvs => rcases hcases with ⟨s, hs⟩ | hs <;> cases hs
  | obj => rcases hcases with ⟨s, hs⟩ | hs <;> cases hs

/-- Members of the same names in the same order with values alike. -/
def RewordedMembers (R : List Nat → List Nat → Prop) : List (RawText × Json) → List (RawText × Json) → Prop :=
  List.Forall₂ fun m n => m.1 = n.1 ∧ Reworded R m.2 n.2

theorem RewordedMembers.putMember {ms ns : List (RawText × Json)} (h : RewordedMembers R ms ns)
    (key : RawText) {v w : Json} (hv : Reworded R v w) :
    RewordedMembers R (putMember key v ms) (putMember key w ns) := by
  induction h with
  | nil => exact .cons ⟨rfl, hv⟩ .nil
  | @cons m n ms ns hm hs ih =>
    obtain ⟨k, v'⟩ := m
    obtain ⟨l, w'⟩ := n
    obtain ⟨rfl, hm⟩ := hm
    dsimp only at hm
    rw [Solwright.putMember, Solwright.putMember]
    split
    · exact .cons ⟨rfl, hv⟩ hs
    · exact .cons ⟨rfl, hm⟩ ih

theorem RewordedMembers.lookup {ms ns : List (RawText × Json)} (h : RewordedMembers R ms ns)
    {key : RawText} {v : Json} (hv : ms.lookup key = some v) :
    ∃ w, ns.lookup key = some w ∧ Reworded R v w := by
  induction h with
  | nil => cases hv
  | @cons m n ms ns hm hs ih =>
    obtain ⟨k, v'⟩ := m
    obtain ⟨l, w'⟩ := n
    obtain ⟨rfl, hm⟩ := hm
    simp only [List.lookup_cons] at hv ⊢
    cases hk : key == k with
    | true =>
      rw [hk] at hv
      cases hv
      exact ⟨w', rfl, hm⟩
    | false =>
      rw [hk] at hv
      exact ih hv

namespace Reader

/-- Open frames alike but for related texts. Where names are kept, members are compared in an object
that is not inside anything else. -/
inductive FramesLike (kept : Prop) (R : List Nat → List Nat → Prop) : List Frame → List Frame → Prop
  | nil : FramesLike kept R [] []
  | array {vs ws : List Json} {fs gs : List Frame} : List.Forall₂ (Reworded R) vs ws →
      FramesLike kept R fs gs → FramesLike kept R (.array vs :: fs) (.array ws :: gs)
  | object {ms ns : List (RawText × Json)} {key key' : RawText} {fs gs : List Frame} :
      (kept → fs = [] → RewordedMembers R ms ns ∧ key = key') → FramesLike kept R fs gs →
      FramesLike kept R (.object ms key :: fs) (.object ns key' :: gs)

/-- What a reader with some open frames expects, alike but for related texts. -/
inductive ExpectingLike (kept : Prop) (R : List Nat → List Nat → Prop) (fs : List Frame) :
    Expecting → Expecting → Prop
  | value : ExpectingLike kept R fs .value .value
  | valueOrClose : ExpectingLike kept R fs .valueOrClose .valueOrClose
  | nameOrClose : ExpectingLike kept R fs .nameOrClose .nameOrClose
  | commaOrClose : ExpectingLike kept R fs .commaOrClose .commaOrClose
  | name {ms ns : List (RawText × Json)} : (kept → fs = [] → RewordedMembers R ms ns) →
      ExpectingLike kept R fs (.name ms) (.name ns)
  | colon {ms ns : List (RawText × Json)} {key key' : RawText} :
      (kept → fs = [] → RewordedMembers R ms ns ∧ key = key') →
      ExpectingLike kept R fs (.colon ms key) (.colon ns key')
  | nothing {v w : Json} : (kept → ∀ ms, v = .obj ms → ∃ ns, w = .obj ns ∧ RewordedMembers R ms ns) →
      ExpectingLike kept R fs (.nothing v) (.nothing w)

/-- Readers alike but for related texts. -/
structure Like (kept : Prop) (R : List Nat → List Nat → Prop) (r q : Reader) : Prop where
  frames : FramesLike kept R r.frames q.frames
  expecting : ExpectingLike kept R r.frames r.expecting q.expecting

theorem FramesLike.length {fs gs : List Frame} (h : FramesLike kept R fs gs) : fs.length = gs.length := by
  induction h with
  | nil => rfl
  | array hvs hfs ih => simp [ih]
  | object hms hfs ih => simp [ih]

theorem ExpectingLike.isValue {fs : List Frame} {e e' : Expecting} (h : ExpectingLike kept R fs e e')
    (he : e.isValue = true) : e = e' := by
  cases h with
  | value => rfl
  | valueOrClose => rfl
  | _ => cases he

theorem Like.complete {fs gs : List Frame} {v w : Json} (h : FramesLike kept R fs gs) (hv : Reworded R v w)
    (hobj : kept → fs = [] → ∀ ms, v = .obj ms → ∃ ns, w = .obj ns ∧ RewordedMembers R ms ns) :
    Like kept R (complete v fs) (complete w gs) := by
  cases h with
  | nil => exact ⟨.nil, .nothing fun hk => hobj hk rfl⟩
  | array hvs hfs => exact ⟨.array (.cons hv hvs) hfs, .commaOrClose⟩
  | object hms hfs =>
    refine ⟨.object (fun hk hnil => ?_) hfs, .commaOrClose⟩
    obtain ⟨hmembers, rfl⟩ := hms hk hnil
    exact ⟨hmembers.putMember _ hv, rfl⟩

/-- Completing a value that is no object. -/
theorem Like.complete_noObject {fs gs : List Frame} {v w : Json} (h : FramesLike kept R fs gs)
    (hv : Reworded R v w) (hno : NoObject v) : Like kept R (Reader.complete v fs) (Reader.complete w gs) :=
  .complete h hv fun _ _ ms hms => absurd hms (hno ms)

theorem mem_names_putMember {key k : RawText} {v : Json} {ms : List (RawText × Json)} :
    k ∈ (putMember key v ms).map (·.1) ↔ k = key ∨ k ∈ ms.map (·.1) := by
  induction ms with
  | nil => simp [putMember]
  | cons m ms ih =>
    obtain ⟨l, w⟩ := m
    rw [putMember]
    split
    next h => simp [h]
    next h =>
      rw [List.map_cons, List.mem_cons, ih, List.map_cons, List.mem_cons]
      tauto

/-- Whether anything is expected. -/
def isOpen : Expecting → Bool
  | .nothing _ => false
  | _ => true

/-- Whether a name, or what comes with it, is expected in any case. -/
def isWithin : Expecting → Bool
  | .value | .valueOrClose | .name _ | .colon _ _ => true
  | _ => false

/-- A reader that has come by a name in an object that is not inside anything else. -/
inductive HasName (k : RawText) : Reader → Prop
  | name {ms : List (RawText × Json)} : k ∈ ms.map (·.1) → HasName k ⟨[], .name ms⟩
  | colon {ms : List (RawText × Json)} {key : RawText} : k = key ∨ k ∈ ms.map (·.1) →
      HasName k ⟨[], .colon ms key⟩
  | nothing {ms : List (RawText × Json)} : k ∈ ms.map (·.1) → HasName k ⟨[], .nothing (.obj ms)⟩
  | after {ms : List (RawText × Json)} {key : RawText} : k ∈ ms.map (·.1) →
      HasName k ⟨[.object ms key], .commaOrClose⟩
  | under {ms : List (RawText × Json)} {key : RawText} {e : Expecting} : isWithin e = true →
      k = key ∨ k ∈ ms.map (·.1) → HasName k ⟨[.object ms key], e⟩
  | inside {f : Frame} {fs : List Frame} {e : Expecting} {ms : List (RawText × Json)} {key : RawText} :
      isOpen e = true → fs.getLast? = some (.object ms key) → k = key ∨ k ∈ ms.map (·.1) →
      HasName k ⟨f :: fs, e⟩

variable {k key : RawText} {fs : List Frame} {ms : List (RawText × Json)}

theorem hasName_complete (h : fs.getLast? = some (.object ms key)) (hk : k = key ∨ k ∈ ms.map (·.1))
    (v : Json) : HasName k (complete v fs) := by
  rcases fs with _ | ⟨f, _ | ⟨f', fs⟩⟩
  · cases h
  · obtain rfl : f = .object ms key := by simpa using h
    exact .after (mem_names_putMember.2 hk)
  · rw [List.getLast?_cons_cons] at h
    cases f with
    | array vs => exact .inside rfl h hk
    | object ns l => exact .inside rfl h hk

theorem hasName_of_getLast? {e : Expecting} (h : fs.getLast? = some (.object ms key))
    (hk : k = key ∨ k ∈ ms.map (·.1)) (he : isWithin e = true) : HasName k ⟨fs, e⟩ := by
  rcases fs with _ | ⟨f, _ | ⟨f', fs⟩⟩
  · cases h
  · obtain rfl : f = .object ms key := by simpa using h
    exact .under he hk
  · rw [List.getLast?_cons_cons] at h
    refine .inside ?_ h hk
    cases e <;> first | rfl | cases he

/-- A name stays. -/
theorem HasName.moves {r r' : Reader} {t : Token} (h : HasName k r) (hm : Moves limit r t r') : HasName k r' := by
  cases h with
  | name hk =>
    cases hm with
    | name => exact .colon (.inr hk)
    | _ => contradiction
  | colon hk =>
    cases hm with
    | colon => exact .under rfl hk
    | _ => contradiction
  | nothing hk => cases hm <;> contradiction
  | after hk =>
    cases hm with
    | closeObject => exact .nothing hk
    | nextMember => exact .name hk
    | _ => contradiction
  | under hwithin hk =>
    cases hm with
    | scalar he => exact hasName_complete rfl hk _
    | text he => exact hasName_complete rfl hk _
    | openArray he => exact .inside rfl rfl hk
    | openObject he => exact .inside rfl rfl hk
    | name => exact .under rfl hk
    | colon => exact .inside rfl rfl hk
    | _ => contradiction
  | @inside f fs e ms key hopen hlast hk =>
    have hcons : ∀ f, (f :: fs).getLast? = some (.object ms key) := by
      intro f
      cases fs with
      | nil => cases hlast
      | cons f' fs => rwa [List.getLast?_cons_cons]
    cases hm with
    | scalar he => exact hasName_complete (hcons f) hk _
    | text he => exact hasName_complete (hcons f) hk _
    | openArray he => exact .inside rfl (hcons f) hk
    | openObject he => exact .inside rfl (hcons f) hk
    | closeEmptyArray => exact hasName_complete hlast hk _
    | closeEmptyObject => exact hasName_complete hlast hk _
    | firstName => exact hasName_of_getLast? hlast hk rfl
    | name => exact .inside rfl hlast hk
    | colon => exact .inside rfl (hcons f) hk
    | closeArray => exact hasName_complete hlast hk _
    | nextItem => exact .inside rfl hlast hk
    | closeObject => exact hasName_complete hlast hk _
    | nextMember => exact hasName_of_getLast? hlast hk rfl

/-- What names a reader has come by are those of the object that it makes. -/
theorem HasName.reads {r : Reader} {ts : List Token} {v : Json} (h : HasName k r) (hr : Reads limit r ts v) :
    ∃ ms, v = .obj ms ∧ k ∈ ms.map (·.1) := by
  induction hr with
  | done =>
    cases h with
    | nothing hk => exact ⟨_, rfl, hk⟩
    | under hwithin => cases hwithin
    | inside hopen => cases hopen
  | move hm hs ih => exact ih (h.moves hm)

/-- A reworded token is taken where the token is, and readers stay alike. -/
theorem Like.move {r r' q : Reader} {t t' : Token} (h : Like kept R r q) (hm : Moves limit r t r')
    (ht : t.Reworded R t') (hkeep : kept → ∀ ns ns', R ns ns' →
      HasName (.ofCodes ns) r' → RawText.ofCodes ns' = .ofCodes ns) :
    ∃ q', Moves limit q t' q' ∧ Like kept R r' q' := by
  obtain ⟨gs, e'⟩ := q
  obtain ⟨hfs, he'⟩ := h
  dsimp only at hfs he'
  cases hm with
  | @scalar fs e v he =>
    obtain rfl := he'.isValue he
    cases ht with
    | mark hmark => cases hmark
    | scalar hv => exact ⟨_, .scalar he, .complete_noObject hfs (.scalar hv) (noObject_of_isScalar hv)⟩
  | @text fs e ns he =>
    obtain rfl := he'.isValue he
    cases ht with
    | mark hmark => cases hmark
    | text hns => exact ⟨_, .text he, .complete_noObject hfs (.text hns) (noObject_ofCodes ns)⟩
  | openArray he hlt =>
    obtain rfl := he'.isValue he
    cases ht with
    | mark => exact ⟨_, .openArray he (hfs.length ▸ hlt), ⟨.array .nil hfs, .valueOrClose⟩⟩
  | openObject he hlt =>
    obtain rfl := he'.isValue he
    cases ht with
    | mark =>
      exact ⟨_, .openObject he (hfs.length ▸ hlt), ⟨.object (fun _ _ => ⟨.nil, rfl⟩) hfs, .nameOrClose⟩⟩
  | closeEmptyArray =>
    cases he'
    cases ht
    cases hfs with
    | array hvs hfs => exact ⟨_, .closeEmptyArray, .complete_noObject hfs (.arr .nil) (by simp [NoObject])⟩
  | closeEmptyObject =>
    cases he'
    cases ht
    cases hfs with
    | object hms hfs =>
      refine ⟨_, .closeEmptyObject, .complete hfs .obj fun _ _ ns hns => ⟨[], rfl, ?_⟩⟩
      cases hns
      exact .nil
  | @firstName fs ns =>
    cases he'
    cases ht with
    | mark hmark => cases hmark
    | @text ns ns' hns =>
      refine ⟨_, .firstName, ⟨?_, .colon fun hk hnil => ⟨.nil, ?_⟩⟩⟩
      · cases hfs with
        | nil => exact .nil
        | array hvs hfs => exact hfs
        | object hms hfs => exact hfs
      · dsimp only at hnil
        rw [hnil] at hkeep
        rw [hkeep hk ns ns' hns (.colon (.inl rfl))]
  | @name fs ms ns =>
    cases he' with
    | name hms =>
      cases ht with
      | mark hmark => cases hmark
      | @text ns ns' hns =>
        refine ⟨_, .name, ⟨hfs, .colon fun hk hnil => ⟨hms hk hnil, ?_⟩⟩⟩
        dsimp only at hnil
        rw [hnil] at hkeep
        rw [hkeep hk ns ns' hns (.colon (.inl rfl))]
  | colon =>
    cases he' with
    | colon hms =>
      cases ht
      exact ⟨_, .colon, ⟨.object hms hfs, .value⟩⟩
  | closeArray =>
    cases he'
    cases ht
    cases hfs with
    | array hvs hfs =>
      exact ⟨_, .closeArray, .complete_noObject hfs (.arr (List.rel_reverse hvs)) (by simp [NoObject])⟩
  | nextItem =>
    cases he'
    cases ht
    cases hfs with
    | array hvs hfs => exact ⟨_, .nextItem, ⟨.array hvs hfs, .value⟩⟩
  | closeObject =>
    cases he'
    cases ht
    cases hfs with
    | object hms hfs =>
      refine ⟨_, .closeObject, .complete hfs .obj fun hk hnil ns hns => ⟨_, rfl, ?_⟩⟩
      cases hns
      exact (hms hk hnil).1
  | nextMember =>
    cases he'
    cases ht
    cases hfs with
    | object hms hfs => exact ⟨_, .nextMember, ⟨hfs, .name fun hk hnil => (hms hk hnil).1⟩⟩

/-- Reworded tokens are read as well. An object has values alike, as long as its names are kept. -/
theorem Like.reads {r q : Reader} {ts ts' : List Token} {v : Json} (h : Like kept R r q)
    (hr : Reads limit r ts v) (hts : List.Forall₂ (Token.Reworded R) ts ts')
    (hkeep : kept → ∀ ms, v = .obj ms → ∀ ns ns', R ns ns' →
      RawText.ofCodes ns ∈ ms.map (·.1) → RawText.ofCodes ns' = .ofCodes ns) :
    ∃ w, Reads limit q ts' w ∧
      (kept → ∀ ms, v = .obj ms → ∃ ns, w = .obj ns ∧ RewordedMembers R ms ns) := by
  induction hr generalizing q ts' with
  | done =>
    obtain ⟨gs, e⟩ := q
    cases hts
    cases h.expecting with
    | nothing hobj => exact ⟨_, .done, hobj⟩
  | move hm hs ih =>
    cases hts with
    | cons ht hts =>
      obtain ⟨q', hm', hq'⟩ := h.move hm ht fun hk ns ns' hns hname => by
        obtain ⟨ms, hv, hmem⟩ := hname.reads hs
        exact hkeep hk ms hv ns ns' hns hmem
      obtain ⟨w, hr', hw⟩ := ih hq' hts hkeep
      exact ⟨w, .move hm' hr', hw⟩

end Reader

end Solwright.Json
