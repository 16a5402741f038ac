import Solwright.Feature
import Solwright.Proofs.Text.Ascii
import Solwright.Proofs.Text.Trim

/-! The spellings of a feature: its name in small and capital letters of ASCII, with white space around
it, and nothing else. -/

namespace Solwright

open Solwright.Text

namespace Text

/-- What is cut off at the ends of a text is white space. -/
theorem trim_split (s : List Char) : ∃ a b, s = a ++ trim s ++ b ∧ IsBlank a ∧ IsBlank b := by
  let rest := s.dropWhile isBlank
  have hright : trim s ++ (rest.reverse.takeWhile isBlank).reverse = rest := by
    rw [trim, trimBy, ← List.reverse_append, List.takeWhile_append_dropWhile, List.reverse_reverse]
  refine ⟨s.takeWhile isBlank, (rest.reverse.takeWhile isBlank).reverse, ?_, ?_, ?_⟩
  · rw [List.append_assoc, hright, List.takeWhile_append_dropWhile]
  · exact fun c hc => List.mem_takeWhile_imp hc
  · exact fun c hc => List.mem_takeWhile_imp (List.mem_reverse.1 hc)

theorem toLower_of_not_isUpper {c : Char} (h : c.isUpper = false) : c.toLower = c := by
  unfold Char.toLower
  split
  next hc =>
    have hupper : c.isUpper = true := decide_eq_true hc
    rw [h] at hupper
    cases hupper
  next => rfl

theorem toNat_lt_of_toLower {c : Char} (h : c.toLower.toNat < 128) : c.toNat < 128 := by
  cases hc : c.isUpper with
  | true =>
    have hle := (isUpper_iff.1 hc).2
    omega
  | false => rwa [toLower_of_not_isUpper hc] at h

/-- Lower case gives a text of ASCII without the letter k from the letters of ASCII only. -/
theorem lower_eq_iff {w n : List Char} (hn : ∀ c ∈ n, c.toNat < 128 ∧ c ≠ 'k') :
    lower w = n ↔ w.map Char.toLower = n := by
  induction w generalizing n with
  | nil => exact Iff.rfl
  | cons c w ih =>
    have hascii : c.toLower :: w.map Char.toLower = n → c.toNat < 128 := by
      rintro rfl
      exact toNat_lt_of_toLower (hn _ List.mem_cons_self).1
    rw [lower, List.flatMap_cons, List.map_cons, lowerChar]
    split
    next hdotted =>
      refine ⟨?_, fun h => ?_⟩
      · rintro rfl
        exact absurd (hn (Char.ofNat 0x307) (by simp)).1 (by decide)
      · have := hascii h
        simp only [beq_iff_eq] at hdotted
        omega
    split
    next hkelvin =>
      refine ⟨?_, fun h => ?_⟩
      · rintro rfl
        exact absurd rfl (hn 'k' List.mem_cons_self).2
      · have := hascii h
        simp only [beq_iff_eq] at hkelvin
        omega
    next =>
      cases n with
      | nil => exact ⟨nofun, nofun⟩
      | cons d n =>
        have ih := ih fun e he => hn e (List.mem_cons_of_mem d he)
        rw [List.singleton_append, List.cons.injEq, List.cons.injEq]
        exact and_congr_right fun _ => ih

end Text

namespace Feature

/-- A spelling of a feature. -/
def IsSpelled (f : Feature) (s : RawText) : Prop :=
  ∃ t a w b, s = .formed t ∧ t.toList = a ++ w ++ b ∧ IsBlank a ∧ IsBlank b ∧ w.map Char.toLower = f.name.toList

theorem mem_all (f : Feature) : f ∈ all := by cases f <;> decide

/-- What is checked of all features holds of each. -/
theorem of_all {p : Feature → Bool} (h : all.all p = true) (f : Feature) : p f = true :=
  List.all_eq_true.1 h f f.mem_all

/-- Every name has small letters at its ends, and no letter that another letter outside ASCII has for
its lower case. -/
theorem name_toList (f : Feature) : (∀ c ∈ f.name.toList, c.toNat < 128 ∧ c ≠ 'k') ∧
    ∃ c m d, f.name.toList = c :: (m ++ [d]) ∧ c.isLower = true ∧ d.isLower = true := by
  have hall : all.all fun f => f.name.toList.all (fun c => c.toNat < 128 && c != 'k') &&
      2 ≤ f.name.toList.length && f.name.toList.head?.any Char.isLower &&
      f.name.toList.getLast?.any Char.isLower := by decide
  have h := of_all hall f
  simp only [Bool.and_eq_true, List.all_eq_true, decide_eq_true_eq, bne_iff_ne] at h
  obtain ⟨⟨⟨hchars, hlength⟩, hhead⟩, hlast⟩ := h
  refine ⟨hchars, ?_⟩
  rcases hname : f.name.toList with _ | ⟨c, s⟩
  · simp [hname] at hlength
  rw [hname] at hlength hhead hlast
  obtain rfl | ⟨m, d, rfl⟩ := s.eq_nil_or_concat
  · simp at hlength
  · exact ⟨c, m, d, by simp, hhead, by simpa [List.getLast?_cons] using hlast⟩

theorem name_inj {f g : Feature} (h : f.name = g.name) : f = g := by
  cases f <;> cases g <;> first | rfl | exact absurd h (by decide)

theorem isBlank_of_toLower {c : Char} (h : c.toLower.isLower = true) : isBlank c = false := by
  have hc : 65 ≤ c.toNat ∧ c.toNat ≤ 122 := by
    cases hu : c.isUpper with
    | true =>
      have := isUpper_iff.1 hu
      omega
    | false =>
      rw [toLower_of_not_isUpper hu, isLower_iff] at h
      omega
  simp [isBlank]
  omega

theorem trim_of_isSpelled {f : Feature} {a w b : List Char} (ha : IsBlank a) (hb : IsBlank b)
    (hw : w.map Char.toLower = f.name.toList) : trim (a ++ w ++ b) = w := by
  obtain ⟨-, c, m, d, hname, hc, hd⟩ := f.name_toList
  rw [hname, List.map_eq_cons_iff] at hw
  obtain ⟨c', w, rfl, rfl, hw⟩ := hw
  rw [List.map_eq_append_iff] at hw
  obtain ⟨m', w, rfl, -, hw⟩ := hw
  obtain ⟨d', rfl, rfl⟩ := List.map_eq_singleton_iff.1 hw
  have hsplit : a ++ c' :: (m' ++ [d']) ++ b = a ++ (c' :: (m' ++ d' :: b)) := by simp
  rw [hsplit, trim_append ha hb (isBlank_of_toLower hc) (isBlank_of_toLower hd)]

theorem find?_name_eq_some_iff {w : String} {f : Feature} :
    all.find? (·.name == w) = some f ↔ f.name = w := by
  constructor
  · intro h
    have hname := List.find?_some h
    exact beq_iff_eq.1 hname
  · rintro rfl
    cases hfind : all.find? (·.name == f.name) with
    | none =>
      have hnone := List.find?_eq_none.1 hfind f f.mem_all
      exact absurd (beq_self_eq_true _) hnone
    | some g =>
      have hname := List.find?_some hfind
      rw [name_inj (beq_iff_eq.1 hname)]

/-- A text names a feature exactly if it is a spelling of it. -/
theorem ofText?_eq_some_iff {s : RawText} {f : Feature} : ofText? s = some f ↔ f.IsSpelled s := by
  cases s with
  | illFormed ns =>
    refine ⟨nofun, ?_⟩
    rintro ⟨t, _, _, _, ht, -⟩
    cases ht
  | formed s =>
    have hread : ofText? (.formed s) = some f ↔ lower (trim s.toList) = f.name.toList := by
      rw [ofText?, find?_name_eq_some_iff]
      constructor
      · intro h
        rw [h, String.toList_ofList]
      · intro h
        rw [h, String.ofList_toList]
    rw [hread, lower_eq_iff f.name_toList.1]
    constructor
    · intro h
      obtain ⟨a, b, hs, ha, hb⟩ := trim_split s.toList
      exact ⟨s, a, _, b, rfl, hs, ha, hb, h⟩
    · rintro ⟨t, a, w, b, ht, hs, ha, hb, hw⟩
      cases ht
      rw [hs, trim_of_isSpelled ha hb hw, hw]

end Feature

end Solwright
