import Solwright.Proofs.Json.Members
import Solwright.Proofs.Library.Confinement
import Solwright.Proofs.Library.Search
import Solwright.Proofs.Session.Documents

/-! The units that a search finds are the least set of new units that is closed under imports, in
whatever order it starts. A document that a compiler is given therefore lacks no unit that the
catalogue has, and holds the given source as it is. -/

namespace Solwright

open Source Search Session

variable {find : RawText → Option RawText} {units : List (RawText × RawText)}

/-- Sets of units that hold whatever the given units or their own import, as far as it is new and can
be found. -/
def Search.Closed (find : RawText → Option RawText) (units : List (RawText × RawText))
    (S : Set (RawText × RawText)) : Prop :=
  ∀ n t, n ∉ units.map (·.1) → find n = some t →
    (∃ u, (u ∈ units ∨ u ∈ S) ∧ ∃ p ∈ importsOf u.2, unitOf u.1 p = n) → (n, t) ∈ S

theorem Search.Needed.mem_closed {S : Set (RawText × RawText)} (hS : Closed find units S) {n t : RawText}
    (hn : Needed find units n) (ht : find n = some t) : (n, t) ∈ S := by
  induction hn generalizing t with
  | given hu hp hnew hs => exact hS _ t hnew ht ⟨_, .inl hu, _, hp, rfl⟩
  | found hn hm hp hnew hs ih => exact hS _ t hnew ht ⟨_, .inr (ih hm), _, hp, rfl⟩

theorem Search.needed_congr {units' : List (RawText × RawText)} (h : ∀ u, u ∈ units' ↔ u ∈ units)
    {n : RawText} (hn : Needed find units' n) : Needed find units n := by
  have hnames : ∀ m, m ∈ units'.map (·.1) ↔ m ∈ units.map (·.1) := by
    intro m
    simp only [List.mem_map, h]
  induction hn with
  | given hu hp hnew hs => exact .given ((h _).1 hu) hp (mt (hnames _).2 hnew) hs
  | found hn hm hp hnew hs ih => exact .found ih hm hp (mt (hnames _).2 hnew) hs

/-- What is found under a name depends on whether the name is needed, and on nothing else. -/
theorem Search.lookup_found (hfin : {n | Needed find units n}.Finite) (n t : RawText) :
    (finish find (start units)).found.lookup n = some t ↔ Needed find units n ∧ find n = some t := by
  rw [← mem_found_iff hfin]
  constructor
  · exact mem_of_lookup
  · intro h
    have hs : ((finish find (start units)).found.lookup n).isSome := by
      rw [List.lookup_isSome_iff]
      exact ⟨(n, t), h, by simp⟩
    obtain ⟨t', ht'⟩ := Option.isSome_iff_exists.1 hs
    have hn := ((mem_found_iff hfin).1 h).2
    have hn' := ((mem_found_iff hfin).1 (mem_of_lookup ht')).2
    rw [ht', ← hn, ← hn']

theorem Search.finite_needed_lookup (held units : List (RawText × RawText)) :
    {n | Needed (held.lookup ·) units n}.Finite := by
  refine (List.finite_toSet (held.map (·.1))).subset fun n hn => ?_
  obtain ⟨t, ht⟩ := Option.isSome_iff_exists.1 (Needed.isSome hn)
  obtain ⟨l, r, hl, -⟩ := List.lookup_eq_some_iff.1 ht
  simp [hl]

/-- A name is found exactly if it is new, can be found, and a unit that is there imports it. -/
theorem Search.mem_found_iff_imported (hfin : {n | Needed find units n}.Finite) {n t : RawText} :
    (n, t) ∈ (finish find (start units)).found ↔ n ∉ units.map (·.1) ∧ find n = some t ∧
      Imported (units ++ (finish find (start units)).found) n := by
  obtain ⟨hi, hf⟩ := finish_spec hfin
  constructor
  · intro h
    obtain ⟨hn, ht⟩ := hi.found_needed _ h
    exact ⟨hn.fresh, ht, hi.found_imported _ h⟩
  · rintro ⟨hnew, ht, u, hu, p, hp, rfl⟩
    exact hi.seen_found _ (hf u hu p hp) hnew t ht

namespace Catalog

variable {c : Catalog}

theorem find_of_fault?_none {n : RawText} (h : c.fault? n = none) : c.find n = .ok (c.find? n) := by
  unfold fault? at h
  unfold find?
  split at h
  next r hr => rw [hr]
  next => cases h

/-- Units are found only where every look-up had an answer. -/
theorem imported_eq_ok {found : List (RawText × RawText)} (h : c.imported units = .ok found) :
    found = (c.search units).found ∧ ∀ n ∈ c.lookups units, c.find n = .ok (c.find? n) := by
  unfold imported at h
  split at h
  next => cases h
  next hnone =>
    cases h
    refine ⟨rfl, fun n hn => find_of_fault?_none ?_⟩
    exact List.findSome?_eq_none_iff.1 hnone n hn

theorem imported_of_find (h : ∀ n ∈ c.lookups units, ∃ t, c.find n = .ok t) :
    ∃ found, c.imported units = .ok found := by
  unfold imported
  split
  next f hf =>
    obtain ⟨n, hn, hn'⟩ := List.exists_of_findSome?_eq_some hf
    obtain ⟨t, ht⟩ := h n hn
    simp [fault?, ht] at hn'
  next => exact ⟨_, rfl⟩

theorem find_of_no_root (h : c.root = none) (n : RawText) : ∃ t, c.find n = .ok t := by
  unfold find
  split
  · exact ⟨_, rfl⟩
  · split
    · exact ⟨_, rfl⟩
    · rw [file, h]
      exact ⟨_, rfl⟩

/-- Whatever a unit of a search imports is there, or the catalogue does not have it. -/
theorem imported_complete (hfin : {n | Needed c.find? units n}.Finite) {found : List (RawText × RawText)}
    (h : c.imported units = .ok found) {n : RawText} (hn : Imported (units ++ found) n) :
    n ∈ (units ++ found).map (·.1) ∨ c.find n = .ok none := by
  obtain ⟨rfl, hok⟩ := imported_eq_ok h
  obtain ⟨hi, hf⟩ := finish_spec hfin
  obtain ⟨u, hu, p, hp, rfl⟩ := hn
  have hseen := hf u hu p hp
  by_cases hnew : unitOf u.1 p ∈ units.map (·.1)
  · exact .inl (by rw [List.map_append]; exact List.mem_append_left _ hnew)
  -- a name that is seen and not given has been looked up
  have hlook : unitOf u.1 p ∈ c.lookups units := by
    obtain ⟨rest, hrest⟩ := hi.seen_given
    change _ ∈ (finish c.find? (start units)).seen.drop units.length
    rw [← hrest, List.mem_append] at hseen
    rw [← hrest, ← List.length_map (f := (·.1)), List.drop_left]
    exact hseen.resolve_left hnew
  rcases ht : c.find? (unitOf u.1 p) with _ | t
  · exact .inr (by rw [hok _ hlook, ht])
  · refine .inl (List.mem_map.2 ⟨(unitOf u.1 p, t), ?_, rfl⟩)
    exact List.mem_append_right _ (hi.seen_found _ hseen hnew t ht)

theorem imported_fresh (hfin : {n | Needed c.find? units n}.Finite) {found : List (RawText × RawText)}
    (h : c.imported units = .ok found) {u : RawText × RawText} (hu : u ∈ found) : u.1 ∉ units.map (·.1) := by
  rw [(imported_eq_ok h).1] at hu
  exact ((finish_spec hfin).1.found_needed u hu).1.fresh

/-- A catalogue without a root has only what it holds in memory. -/
theorem finite_needed (units : List (RawText × RawText)) (hroot : c.root = none) :
    {n | Needed c.find? units n}.Finite := by
  refine (List.finite_toSet (c.sources.map (·.1))).subset fun n hn => ?_
  obtain ⟨t, ht⟩ := Option.isSome_iff_exists.1 (Needed.isSome hn)
  obtain ⟨-, hmemory | ⟨raw, hfile, -⟩⟩ := find_eq_ok (find_of_find? ht)
  · exact List.mem_map.2 ⟨(n, t), mem_of_lookup hmemory, rfl⟩
  · obtain ⟨_, root, -, hsome, -⟩ := file_eq_ok hfile
    rw [hroot] at hsome
    cases hsome

end Catalog

/-- A search through finitely many units ends, and it finds the least set of new units that is closed
under imports: a name with a text once each, whatever the order of the given units. Every document of
a compilation so has the given source under its name, and no unit in it imports what is missing from
it, but for what the catalogue does not have. -/
theorem imports_closed (find : RawText → Option RawText) (units : List (RawText × RawText))
    (hfin : {n | Needed find units n}.Finite) (s : Session) (source name : RawText)
    (options : CompileOptions)
    (hs : {n | Needed s.catalog.find? [(sourceName name, source)] n}.Finite) :
    let found := (finish find (start units)).found
    (∃ k, (after find k (start units)).pending = [] ∧
      finish find (start units) = after find k (start units)) ∧
    (∀ n t, (n, t) ∈ found ↔
      n ∉ units.map (·.1) ∧ find n = some t ∧ Imported (units ++ found) n) ∧
    Closed find units {u | u ∈ found} ∧
    (∀ S, Closed find units S → ∀ u ∈ found, u ∈ S) ∧
    (found.map (·.1)).Nodup ∧
    (∀ units', units'.Perm units → ∀ n,
      (finish find (start units')).found.lookup n = found.lookup n) ∧
    ∃ documents, ((compile source name options).run s).2.journal.documents =
        s.journal.documents ++ documents ∧
      (∀ d ∈ documents, (∀ text, (sourceName name, text) ∈ d.units ↔ text = source) ∧
        ∀ n, Imported d.units n → n ∈ d.units.map (·.1) ∨ s.catalog.find n = .ok none) ∧
      ((∃ e, (engine.run s).1 = .ok e) →
        isOver (options.timeout.or s.settings.compileTimeout) = false →
        (∀ n ∈ s.catalog.lookups [(sourceName name, source)], ∃ t, s.catalog.find n = .ok t) →
        ∃ d, documents = [d]) := by
  intro found
  obtain ⟨k, hk⟩ := exists_after_nil hfin
  refine ⟨⟨k, hk, finish_eq_after hk⟩, fun n t => mem_found_iff_imported hfin, ?_, ?_,
    (finish_spec hfin).1.found_nodup, ?_, ?_⟩
  · rintro n t hnew ht ⟨u, hu, himp⟩
    exact (mem_found_iff_imported hfin).2 ⟨hnew, ht, u, List.mem_append.2 hu, himp⟩
  · rintro S hS ⟨n, t⟩ hu
    obtain ⟨hn, ht⟩ := (mem_found_iff hfin).1 hu
    exact hn.mem_closed hS ht
  · intro units' hperm n
    have hneed : ∀ m, Needed find units' m ↔ Needed find units m := fun m =>
      ⟨needed_congr fun _ => hperm.mem_iff, needed_congr fun _ => hperm.symm.mem_iff⟩
    have hfin' : {m | Needed find units' m}.Finite := by simpa only [hneed] using hfin
    apply Option.ext
    intro t
    rw [lookup_found hfin', lookup_found hfin, hneed]
  · refine ⟨_, documents_compile source name options s, ?_, ?_⟩
    · intro d hd
      obtain ⟨found, hfound, hunits⟩ := mem_handedOver hd
      rw [hunits]
      refine ⟨fun text => ?_, fun n hn => Catalog.imported_complete hs hfound hn⟩
      have hnew : (sourceName name, text) ∉ found := by
        intro hm
        rw [(Catalog.imported_eq_ok hfound).1] at hm
        simpa using (((finish_spec hs).1.found_needed _ hm).1).fresh
      simp [hnew]
    · rintro ⟨e, he⟩ hover hlook
      obtain ⟨found, hfound⟩ := Catalog.imported_of_find hlook
      exact ⟨documentWith s source name options found, by simp [handedOver, he, hfound, hover]⟩

theorem imports_closed_cycle :
    let units : List (RawText × RawText) := [("a.sol", "import \"./b.sol\";")]
    let held : List (RawText × RawText) := [("b.sol", "import \"./a.sol\";\nimport \"c.sol\";")]
    let token : RawText := "@openzeppelin/contracts/Token.sol"
    let s : Session := {
      settings := ⟨"0.8.20", "paris", true, 200, none, false, none, none, "model", none, "INFO"⟩
      catalog := { sources := [(token, "contract Token {}")] }
      outside := .steady "0.8.20" (.obj []) }
    (.formed "b.sol", .formed "import \"./a.sol\";\nimport \"c.sol\";") ∈
        (finish (held.lookup ·) (start units)).found ∧
      ∀ d ∈ ((compile "import \"@openzeppelin/contracts/Token.sol\";" "C" {}).run s).2.journal.documents,
        token ∈ d.units.map (·.1) ∨ s.catalog.find token = .ok none := by
  intro units held token s
  obtain ⟨-, hfound, -, -, -, -, documents, hdocs, hd, -⟩ :=
    imports_closed (held.lookup ·) units (finite_needed_lookup held units) s
      "import \"@openzeppelin/contracts/Token.sol\";" "C" {}
      (Catalog.finite_needed _ rfl)
  refine ⟨(hfound _ _).2 ⟨by decide, by decide, ?_⟩, fun d hm => ?_⟩
  · exact ⟨("a.sol", "import \"./b.sol\";"), by simp [units], "./b.sol", by decide, by decide⟩
  · rw [hdocs, List.mem_append] at hm
    obtain ⟨hself, himports⟩ := hd d (hm.resolve_left List.not_mem_nil)
    exact himports token ⟨_, (hself _).2 rfl, token, by decide, by decide⟩

end Solwright
