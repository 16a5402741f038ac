import Solwright.Proofs.Json.Members
import Solwright.Proofs.Library.Search
import Solwright.Proofs.Source.Segments
import Solwright.Proofs.Text.Marked

/-! The names under which a search can find units. A path in a source can be spelled in infinitely many
ways, but it stands in one of finitely many texts; and a name that a relative path is made to is normal,
so that the file to which it leads tells how it is spelled. -/

namespace Solwright

open Solwright.Source Solwright.Text Solwright.Search

namespace Source

open Catalog (IsName way)

/-- A normal path that begins with neither a slash nor a dot is put together of names. -/
theorem exists_names_of_normal {path rest : List Char} {c : Char} (h : normal path = c :: rest) (hslash : c ≠ '/')
    (hdot : c ≠ '.') : ∃ name names, normal path = name ++ way names ∧
      ∀ s ∈ name :: names, IsName s ∧ '/' ∉ s := by
  unfold normal at h ⊢
  dsimp only at h ⊢
  generalize leadingSlashes path = slashes at h ⊢
  obtain ⟨ups, names, hsegments, -, hnames⟩ := normalSegments_eq (slashes != 0) path
  rw [hsegments] at h ⊢
  split at h
  · exact absurd (List.cons.inj h).1.symm hdot
  next hresult =>
  rw [if_neg hresult]
  cases slashes with
  | succ slashes => exact absurd (List.cons.inj h).1.symm hslash
  | zero =>
    cases ups with
    | succ ups =>
      rw [List.replicate_succ, List.cons_append, joinWith_way] at h
      exact absurd (List.cons.inj h).1.symm hdot
    | zero =>
      cases names with
      | nil => exact absurd rfl hresult
      | cons name names => exact ⟨name, names, joinWith_way name names, hnames⟩

end Source

namespace Catalog

variable {c : Catalog}

/-- A path of names leads to a file below the root, and the place of the file tells its names. -/
theorem locate_names {root : List (List Char)} {name : List Char} {names : List (List Char)}
    (h : ∀ s ∈ name :: names, IsName s ∧ '/' ∉ s) (hhead : (name ++ way names).head? ≠ some '/') :
    locate root (name ++ way names) = root ++ name :: names := by
  rw [List.forall_mem_cons] at h
  rw [locate, splitAt_way fun s hs => (h.2 s hs).2, splitAt_of_notMem h.1.2, if_neg (by simpa using hhead)]
  have hnames : ∀ s ∈ [name] ++ names, IsName s := by
    intro s hs
    rcases List.mem_cons.1 hs with rfl | hs
    · exact h.1.1
    · exact (h.2 s hs).1
  rw [foldl_descend_names hnames]
  simp

/-- The name of a file below the root, spelled without detours. -/
def plainName (root place : List (List Char)) : String :=
  String.ofList (joinWith ['/'] (place.drop root.length))

/-- The texts in which a search can meet imports. -/
def texts (c : Catalog) (units : List (RawText × RawText)) : List RawText :=
  units.map (·.2) ++ c.sources.map (·.2) ++ c.files.map fun f => .formed (String.ofList (universalLines f.2))

/-- The names under which a search can find units: paths as they stand in a text, names of sources in
memory, and those of files. -/
def spellings (c : Catalog) (units : List (RawText × RawText)) : List RawText :=
  (c.texts units).flatMap importsOf ++ c.sources.map (·.1) ++
    c.files.map fun f => .formed (plainName (c.root.getD []) f.1)

/-- What is found is one of the texts. -/
theorem mem_texts_of_find {n t : RawText} (h : c.find n = .ok (some t)) (units : List (RawText × RawText)) :
    t ∈ c.texts units := by
  rcases (find_eq_ok h).2 with hmemory | ⟨raw, hfile, rfl⟩
  · exact List.mem_append_left _ (List.mem_append_right _ (List.mem_map_of_mem (mem_of_lookup hmemory)))
  · obtain ⟨_, root, -, -, -, -, hraw⟩ := file_eq_ok hfile
    exact List.mem_append_right _ (List.mem_map_of_mem
      (f := fun f => RawText.formed (String.ofList (universalLines f.2))) (mem_of_lookup hraw))

theorem begins_of_knows {n : String} (hb : c.beginnings = ["@openzeppelin/contracts/"])
    (h : c.knows (.formed n) = true) : ∃ rest, n.toList = '@' :: rest := by
  obtain ⟨b, hmem, rest, hrest⟩ := knows_formed.1 h
  rw [hb, List.mem_singleton] at hmem
  subst hmem
  have hat : "@openzeppelin/contracts/".toList = '@' :: "openzeppelin/contracts/".toList := by decide
  rw [hat] at hrest
  exact ⟨_, hrest.symm⟩

/-- A path of names is the plain name of the file to which it leads. -/
theorem plainName_locate {root : List (List Char)} {name : List Char} {names : List (List Char)} {n : String}
    (h : ∀ s ∈ name :: names, IsName s ∧ '/' ∉ s) (hn : n.toList = name ++ way names)
    (hhead : n.toList.head? ≠ some '/') : plainName root (locate root n.toList) = n := by
  rw [hn] at hhead
  rw [← String.toList_inj, plainName, String.toList_ofList, hn, locate_names h hhead, List.drop_left, joinWith_way]

theorem shownMarked_way (names : List (List Char)) :
    ∀ name, shownMarked (name ++ way names) = shownMarked name ++ way (names.map shownMarked) := by
  induction names with
  | nil => simp [way, shownMarked]
  | cons t names ih =>
    intro name
    have hway : ∀ t ts, way (t :: ts) = '/' :: (t ++ way ts) := fun _ _ => rfl
    rw [hway, shownMarked_append_slash, ih, List.map_cons, hway]

/-- What was made of a name is one. -/
theorem isName_shownMarked {s : List Char} (h : IsName s) : IsName (shownMarked s) := by
  refine ⟨fun he => ?_, fun he => ?_, fun he => ?_⟩
  · exact h.1 (eq_of_shownMarked_points (k := 0) he)
  · exact h.2.1 (eq_of_shownMarked_points (k := 1) he)
  · exact h.2.2 (eq_of_shownMarked_points (k := 2) he)

/-- A text in which half a pair may stand begins with the characters that it was made of. -/
theorem shownMarked_cons {c : Char} (h : c ≠ mark) (s : List Char) : shownMarked (c :: s) = c :: shownMarked s := by
  rw [shownMarked, unmarked_cons h, shownCodes, List.map_cons, shownCode_toNat]
  rfl

/-- The name of a file to which a relative path is made is put together of names. -/
theorem exists_names_of_made {n : String} {path rest : List Char} (hat : n.toList = '@' :: rest)
    (hn : n.toList = normal path ∨ n.toList = shownMarked (normal path)) :
    ∃ name names, n.toList = name ++ way names ∧ ∀ s ∈ name :: names, IsName s ∧ '/' ∉ s := by
  rcases hn with hn | hn
  · rw [hn]
    exact exists_names_of_normal (hn.symm.trans hat) (by decide) (by decide)
  rw [hn] at hat
  have hfirst : ∃ c s, normal path = c :: s ∧ c ≠ '/' ∧ c ≠ '.' := by
    cases hpath : normal path with
    | nil =>
      rw [hpath] at hat
      cases hat
    | cons c s =>
      rw [hpath] at hat
      refine ⟨c, s, rfl, ?_, ?_⟩ <;>
      · rintro rfl
        rw [shownMarked_cons (by decide)] at hat
        exact absurd (List.cons.inj hat).1 (by decide)
  obtain ⟨c, s, hpath, hslash, hdot⟩ := hfirst
  obtain ⟨name, names, hnormal, hnames⟩ := exists_names_of_normal hpath hslash hdot
  refine ⟨shownMarked name, names.map shownMarked, ?_, ?_⟩
  · rw [hn, hnormal, shownMarked_way]
  · rw [← List.map_cons]
    exact List.forall_mem_map.2 fun s hs =>
      ⟨isName_shownMarked (hnames s hs).1, slash_notMem_shownMarked (hnames s hs).2⟩

/-- A path in a source is the name of a unit as it stands, or it is relative and made normal. -/
theorem unitOf_eq_formed {importer path : RawText} {n : String} (h : unitOf importer path = .formed n) :
    path = .formed n ∨ ∃ p, n.toList = normal p ∨ n.toList = shownMarked (normal p) := by
  unfold unitOf at h
  split at h
  next importer path =>
    cases h
    by_cases hrelative : isRelative path.toList = true
    · exact .inr ⟨_, .inl (by rw [unitName, String.toList_ofList, resolve, if_pos hrelative])⟩
    · exact .inl (by rw [unitName, resolve, if_neg hrelative, String.ofList_toList])
  next =>
    split at h
    next hrelative =>
      have hn := (RawText.ofCodes_eq_formed h).2
      rw [resolve, if_pos hrelative] at hn
      exact .inr ⟨_, .inr hn⟩
    next => exact .inl h

theorem mem_spellings {u : RawText × RawText} {p : RawText} {units : List (RawText × RawText)}
    (hu : u.2 ∈ c.texts units) (hp : p ∈ importsOf u.2) (hb : c.beginnings = ["@openzeppelin/contracts/"])
    (hfind : (c.find? (unitOf u.1 p)).isSome) : unitOf u.1 p ∈ c.spellings units := by
  obtain ⟨t, ht⟩ := Option.isSome_iff_exists.1 hfind
  obtain ⟨hknown, hmemory | ⟨raw, hfile, -⟩⟩ := find_eq_ok (find_of_find? ht)
  · exact List.mem_append_left _ (List.mem_append_right _ (List.mem_map_of_mem (mem_of_lookup hmemory)))
  obtain ⟨n, root, hname, hroot, -, -, hraw⟩ := file_eq_ok hfile
  rw [hname] at hknown ⊢
  rcases unitOf_eq_formed hname with rfl | ⟨path, hn⟩
  · exact List.mem_append_left _ (List.mem_append_left _ (List.mem_flatMap.2 ⟨u.2, hu, hp⟩))
  -- the place of the file tells how the name is spelled
  obtain ⟨rest, hat⟩ := begins_of_knows hb hknown
  obtain ⟨name, names, hway, hnames⟩ := exists_names_of_made hat hn
  have hhead : n.toList.head? ≠ some '/' := by
    rw [hat, List.head?_cons, ne_eq, Option.some.injEq]
    decide
  refine List.mem_append_right _ (List.mem_map.2 ⟨_, mem_of_lookup hraw, ?_⟩)
  rw [hroot, Option.getD_some, plainName_locate hnames hway hhead]

/-- All names that a search needs are among finitely many spellings. -/
theorem mem_spellings_of_needed {units : List (RawText × RawText)}
    (hb : c.beginnings = ["@openzeppelin/contracts/"]) {n : RawText} (h : Needed c.find? units n) :
    n ∈ c.spellings units := by
  cases h with
  | given hu hp _ hfind =>
    refine mem_spellings ?_ hp hb hfind
    exact List.mem_append_left _ (List.mem_append_left _ (List.mem_map_of_mem hu))
  | found _ ht hp _ hfind =>
    exact mem_spellings (u := (_, _)) (mem_texts_of_find (find_of_find? ht) units) hp hb hfind

end Catalog

end Solwright
