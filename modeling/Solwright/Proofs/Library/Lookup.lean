import Solwright.Proofs.Library.Confinement
import Solwright.Source.Path

/-! What the look-up of a path comes to. A path that begins as it has to names a source in memory, or
else the file to which it leads when it is joined to the root and made normal, if that is strictly below
the root. All other paths find nothing, except those that come to a name which no folder can be asked
for: their look-up is a fault. -/

namespace Solwright

namespace Catalog

open Text Source

/-- A path joined to the root. An absolute path stands for itself. -/
def joinedTo (root : List (List Char)) (path : List Char) : List Char :=
  if path.head? = some '/' then path else way root ++ '/' :: path

/-- Joined to the root and made normal, a path names a place strictly below the root. -/
structure NamesBelow (root : List (List Char)) (path : List Char) (place : List (List Char)) : Prop where
  normal : place = normalSegments true (joinedTo root path)
  below : root <+: place
  strict : root ≠ place

/-- A place that cannot be asked for: its path is too long, or one of its folders is there but the name
that comes next is too long for it. -/
def IsTooLong (c : Catalog) (place : List (List Char)) : Prop :=
  pathLimit < pathBytes place ∨ ∃ reached s rest, place = reached ++ s :: rest ∧
    c.isFolder reached = true ∧ segmentLimit < byteCount s

theorem up_notMem_descend {kept : List (List Char)} (h : ['.', '.'] ∉ kept) (s : List Char) :
    ['.', '.'] ∉ descend kept s := by
  unfold descend
  split
  · exact h
  split
  · exact fun hm => h (List.mem_of_mem_drop hm)
  next hup => exact List.not_mem_cons_of_ne_of_not_mem (fun he => hup (by simp [← he])) h

/-- From the top, names of units and places of files are made normal in the same way. -/
theorem enter_eq_descend {kept : List (List Char)} (h : ['.', '.'] ∉ kept) (s : List Char) :
    enter true kept s = descend kept s := by
  unfold enter descend
  split
  · rfl
  split
  · cases kept with
    | nil => rfl
    | cons last rest =>
      have hlast : last ≠ ['.', '.'] := fun he => h (by simp [he])
      simp [hlast]
  · rfl

theorem foldl_enter_eq_foldl_descend {segments kept : List (List Char)} (h : ['.', '.'] ∉ kept) :
    segments.foldl (enter true) kept = segments.foldl descend kept := by
  induction segments generalizing kept with
  | nil => rfl
  | cons s segments ih =>
    rw [List.foldl_cons, List.foldl_cons, enter_eq_descend h]
    apply ih
    exact up_notMem_descend h s

/-- A path leads to the place that it names when it is joined to the root and made normal. -/
theorem locate_eq_normalSegments {root : List (List Char)} (h : ∀ s ∈ root, IsSegment s)
    (path : List Char) : locate root path = normalSegments true (joinedTo root path) := by
  unfold locate normalSegments joinedTo
  rw [foldl_enter_eq_foldl_descend List.not_mem_nil]
  by_cases habsolute : path.head? = some '/'
  · simp [habsolute]
  · have hroot : splitAt '/' (way root) = [] :: root := splitAt_way (fun s hs => (h s hs).whole) []
    have hstart : ([] :: root).foldl descend [] = root.reverse := by
      have hempty : descend [] [] = [] := rfl
      rw [List.foldl_cons, hempty, foldl_descend_names fun s hs => (h s hs).name, List.append_nil]
    simp [habsolute, splitAt_append_cons, hroot, List.foldl_append, ← hstart]

theorem isFolder_of_append {c : Catalog} {a b : List (List Char)} (h : c.isFolder (a ++ b) = true) :
    c.isFolder a = true := by
  simp only [isFolder, Bool.or_eq_true, List.any_eq_true, Bool.and_eq_true, decide_eq_true_eq,
    List.isPrefixOf_iff_prefix, List.length_append] at h ⊢
  rcases h with ⟨f, hf, hprefix, hlength⟩ | ⟨f, hf, hprefix⟩
  · exact .inl ⟨f, hf, (List.prefix_append a b).trans hprefix, by omega⟩
  · exact .inr ⟨f, hf, (List.prefix_append a b).trans hprefix⟩

/-- The way to a place comes to a name that is too long if one of the folders on it is there and the
next name is too long. -/
theorem meetsLongSegment_iff {c : Catalog} {reached place : List (List Char)} :
    c.meetsLongSegment reached place = true ↔ ∃ a s rest, place = a ++ s :: rest ∧
      c.isFolder (reached ++ a) = true ∧ segmentLimit < byteCount s := by
  induction place generalizing reached with
  | nil => simp [meetsLongSegment]
  | cons t place ih =>
    rw [meetsLongSegment, Bool.and_eq_true, Bool.or_eq_true, decide_eq_true_eq, ih]
    constructor
    · rintro ⟨hfolder, hlong | ⟨a, s, rest, rfl, hlater, hlong⟩⟩
      · exact ⟨[], t, place, rfl, by simpa using hfolder, hlong⟩
      · exact ⟨t :: a, s, rest, rfl, by simpa using hlater, hlong⟩
    · rintro ⟨a, s, rest, hplace, hfolder, hlong⟩
      refine ⟨isFolder_of_append hfolder, ?_⟩
      cases a with
      | nil =>
        obtain ⟨rfl, rfl⟩ := List.cons.inj hplace
        exact .inl hlong
      | cons u a =>
        obtain ⟨rfl, rfl⟩ := List.cons.inj hplace
        exact .inr ⟨a, s, rest, rfl, by simpa using hfolder, hlong⟩

theorem isTooLong_iff {c : Catalog} {place : List (List Char)} : c.IsTooLong place ↔
    (pathLimit < pathBytes place || c.meetsLongSegment [] place) = true := by
  rw [Bool.or_eq_true, decide_eq_true_eq, meetsLongSegment_iff]
  rfl

variable {c : Catalog} {path : RawText}

theorem find_of_unknown (h : c.knows path = false) : c.find path = .ok none := by
  simp [find, h]

theorem find_of_memory {text : RawText} (hknown : c.knows path = true)
    (hmemory : c.sources.lookup path = some text) : c.find path = .ok (some text) := by
  simp [find, hknown, hmemory]

theorem find_of_file (hknown : c.knows path = true) (hmemory : c.sources.lookup path = none) :
    c.find path = (c.file path).map fun found =>
      found.map fun raw => .formed (String.ofList (universalLines raw)) := by
  simp [find, hknown, hmemory]

section Root

variable (hpath : badPath? path = none) (hroot : ∀ root ∈ c.root, ∀ s ∈ root, IsSegment s)

include hpath hroot

/-- A path that names no place below the root leads to no file. -/
theorem file_of_outside (h : ¬∃ root place, c.root = some root ∧ NamesBelow root (pathChars path) place) :
    c.file path = .ok none := by
  unfold file
  rw [hpath]
  cases hset : c.root with
  | none => rfl
  | some root =>
    have hplace := locate_eq_normalSegments (hroot root hset) (pathChars path)
    have hnowhere : c.fileBelow root (pathChars path) = .ok none := by
      unfold fileBelow
      rw [if_neg]
      intro hbelow
      obtain ⟨hbelow, hne⟩ := isBelow_iff.1 hbelow
      exact h ⟨root, _, hset, hplace, hbelow, hne⟩
    simp [hnowhere, Except.map]

/-- A path that names a place below the root leads to the file there, if it can be the path of a file. -/
theorem file_of_namesBelow {root place : List (List Char)} (hset : c.root = some root)
    (h : NamesBelow root (pathChars path) place) :
    c.file path = (c.fileAt place).map fun found => if path.isFormed then found else none := by
  have hplace : locate root (pathChars path) = place :=
    (locate_eq_normalSegments (hroot root hset) (pathChars path)).trans h.normal.symm
  unfold file
  rw [hset, hpath]
  dsimp only
  rw [fileBelow, hplace, if_pos (isBelow_iff.2 ⟨h.below, h.strict⟩)]

end Root

theorem fileAt_of_isTooLong {place : List (List Char)} (h : c.IsTooLong place) :
    c.fileAt place = .error .pathTooLong :=
  if_pos (isTooLong_iff.1 h)

theorem fileAt_of_not_isTooLong {place : List (List Char)} (h : ¬c.IsTooLong place) :
    c.fileAt place = .ok (c.files.lookup place) :=
  if_neg fun hlong => h (isTooLong_iff.2 hlong)

/-- A path names one place below the root at most. -/
theorem exists_names_iff {root place : List (List Char)} (hset : c.root = some root)
    (h : NamesBelow root (pathChars path) place) {p : List (List Char) → Prop} :
    (∃ root place, c.root = some root ∧ NamesBelow root (pathChars path) place ∧ p place) ↔ p place := by
  constructor
  · rintro ⟨root', place', hset', h', hp⟩
    obtain rfl : root = root' := Option.some.inj (hset.symm.trans hset')
    rwa [h.normal, ← h'.normal]
  · exact fun hp => ⟨root, place, hset, h, hp⟩

/-- A source is found exactly if the path begins as it has to and is held in memory, or is not and names
an existing file strictly below the root. It is a fault exactly if such a place cannot be asked for.
Everything else finds nothing. -/
theorem find_decided (hpath : badPath? path = none)
    (hroot : ∀ root ∈ c.root, ∀ s ∈ root, IsSegment s) :
    (∀ text, c.find path = .ok (some text) ↔ (∃ b ∈ c.beginnings, (RawText.formed b).codes <+: path.codes) ∧
      (c.sources.lookup path = some text ∨ c.sources.lookup path = none ∧ ∃ root place,
        c.root = some root ∧ NamesBelow root (pathChars path) place ∧ ¬c.IsTooLong place ∧ path.isFormed = true ∧
        ∃ raw, c.files.lookup place = some raw ∧ text = .formed (String.ofList (universalLines raw)))) ∧
    (∀ f, c.find path = .error f ↔ f = .pathTooLong ∧
      (∃ b ∈ c.beginnings, (RawText.formed b).codes <+: path.codes) ∧ c.sources.lookup path = none ∧
      ∃ root place, c.root = some root ∧ NamesBelow root (pathChars path) place ∧ c.IsTooLong place) ∧
    (c.find path = .ok none ↔ (∃ b ∈ c.beginnings, (RawText.formed b).codes <+: path.codes) →
      c.sources.lookup path = none ∧ ¬∃ root place, c.root = some root ∧ NamesBelow root (pathChars path) place ∧
        (c.IsTooLong place ∨ path.isFormed = true ∧ (c.files.lookup place).isSome)) := by
  rw [← knows_iff]
  cases hknown : c.knows path with
  | false => simp [find_of_unknown hknown]
  | true =>
  cases hmemory : c.sources.lookup path with
  | some text =>
    rw [find_of_memory hknown hmemory]
    simp
  | none =>
  rw [find_of_file hknown hmemory]
  by_cases hbelow : ∃ root place, c.root = some root ∧ NamesBelow root (pathChars path) place
  · obtain ⟨root, place, hset, hnames⟩ := hbelow
    simp only [exists_names_iff hset hnames]
    rw [file_of_namesBelow hpath hroot hset hnames]
    by_cases hlong : c.IsTooLong place
    · rw [fileAt_of_isTooLong hlong]
      refine ⟨fun text => ?_, fun f => ?_, ?_⟩
      · simp [hlong, Except.map]
      · simp [hlong, Except.map, eq_comm]
      · simp [hlong, Except.map]
    · rw [fileAt_of_not_isTooLong hlong]
      refine ⟨fun text => ?_, fun f => ?_, ?_⟩
      · cases path.isFormed <;> simp [hlong, Except.map, eq_comm]
      · simp [hlong, Except.map]
      · cases path.isFormed <;> cases c.files.lookup place <;> simp [hlong, Except.map]
  · have hnone : ∀ p : List (List Char) → Prop,
        ¬∃ root place, c.root = some root ∧ NamesBelow root (pathChars path) place ∧ p place :=
      fun p ⟨root, place, hset, hnames, _⟩ => hbelow ⟨root, place, hset, hnames⟩
    rw [file_of_outside hpath hroot hbelow]
    simp only [hnone]
    simp [Except.map]

/-- A path that leaves the root and comes back finds the file that it names, one that leads elsewhere
finds nothing, and a name that is too long is a fault. -/
theorem find_decided_returning :
    let root := ["lib".toList]
    let c : Catalog :=
      { root := some root, files := [(root ++ ["A.sol".toList], ['A', '\r', '\n'])], beginnings := [""] }
    c.find "x/../../lib//./A.sol" = .ok (some "A\n") ∧ c.find "/etc/A.sol" = .ok none ∧
      c.find (String.ofList (List.replicate 256 'a')) = .error .pathTooLong := by
  intro root c
  have hroot : ∀ root ∈ c.root, ∀ s ∈ root, IsSegment s := by
    intro r hr s hs
    obtain rfl : root = r := by simpa [c] using hr
    obtain rfl : s = "lib".toList := by simpa [root] using hs
    exact ⟨by unfold IsName; decide, by decide, by decide⟩
  refine ⟨?_, ?_, ?_⟩
  · have hnames : NamesBelow root "x/../../lib//./A.sol".toList (root ++ ["A.sol".toList]) :=
      ⟨by decide, by decide, by decide⟩
    have hshort : ¬c.IsTooLong (root ++ ["A.sol".toList]) := by
      rw [isTooLong_iff]
      decide
    exact ((find_decided (by decide) hroot).1 "A\n").2 ⟨⟨"", by simp [c], List.nil_prefix⟩,
      .inr ⟨rfl, root, _, rfl, hnames, hshort, rfl, _, rfl, rfl⟩⟩
  · refine (find_decided (by decide) hroot).2.2.2 fun _ => ⟨rfl, ?_⟩
    rintro ⟨root', place, hset, hnames, -⟩
    obtain rfl : root = root' := Option.some.inj hset
    have hplace : place = ["etc".toList, "A.sol".toList] := hnames.normal.trans (by decide)
    have hbelow := hnames.below
    rw [hplace] at hbelow
    exact absurd hbelow (by decide)
  · have hnames : NamesBelow root (String.ofList (List.replicate 256 'a')).toList (root ++ [List.replicate 256 'a']) :=
      ⟨by rw [String.toList_ofList]; decide +kernel, by decide, by decide⟩
    have hlong : c.IsTooLong (root ++ [List.replicate 256 'a']) :=
      .inr ⟨root, List.replicate 256 'a', [], rfl, by decide, by decide +kernel⟩
    refine ((find_decided ?_ hroot).2.1 _).2 ⟨rfl, ⟨"", by simp [c], List.nil_prefix⟩, rfl, root, _, rfl,
      hnames, hlong⟩
    rw [badPath?, String.toList_ofList]
    decide

end Catalog

end Solwright
