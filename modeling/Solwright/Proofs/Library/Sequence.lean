import Solwright.Proofs.Library.Closure
import Solwright.Proofs.Source.Statement

/-! Import statements one after another. Only what begins a line is read as a statement: the first of them
and those that a line end stands in front of. The search for imported units goes on from these alone. -/

namespace Solwright

open Search Source Text

/-- No line inside a statement begins with the word, which is none of the names in it. -/
def Source.Statement.KeepsWord (s : Statement) : Prop :=
  ∀ u v, s.between = u ++ '\n' :: v ∨ s.behind = u ++ '\n' :: v → ¬BeginsImport v

theorem Source.Statement.import?_none {s : Statement} (hs : s.KeepsWord) {gap : List Char} (hgap : '\n' ∉ gap)
    {u v : List Char} (h : gap ++ s.text = u ++ '\n' :: v) (rest : List Char) : import? none (v ++ rest) = none := by
  have hend : ∀ {w : List Char} {c : Char} (t : List Char), ¬BeginsImport w → c ∉ "import".toList →
      isBlank c = false → import? none (w ++ c :: t) = none := by
    intro w c t hw hc hblank
    rw [Option.eq_none_iff_forall_ne_some]
    intro found hfound
    exact hw (beginsImport_of_some hfound (by simpa using hc) (.inr hblank))
  have hquote : s.quote ∉ "import".toList ∧ isBlank s.quote = false ∧ '\n' ≠ s.quote := by
    have hq := s.quoted
    rw [isQuote, Bool.or_eq_true, beq_iff_eq, beq_iff_eq] at hq
    rcases hq with hq | hq <;> rw [hq] <;> decide
  obtain ⟨hword, hblank, hline⟩ := hquote
  obtain ⟨_, h, -⟩ := cons_of_append_notMem hgap h.symm
  rw [s.text_eq] at h
  obtain ⟨_, h, -⟩ := cons_of_append_notMem (by decide) h.symm
  rcases cons_of_append_eq h.symm with ⟨w, hbetween, rfl⟩ | ⟨_, h, -⟩
  · rw [List.append_assoc, List.cons_append]
    exact hend _ (hs _ w (.inl hbetween)) hword hblank
  have hcut : s.quote :: (s.path ++ s.quote :: (s.behind ++ [';'])) =
      (s.quote :: (s.path ++ [s.quote])) ++ (s.behind ++ [';']) := by simp
  have hquoted : '\n' ∉ s.quote :: (s.path ++ [s.quote]) := by
    have hpath : '\n' ∉ s.path := fun hmem => (s.path_plain _ hmem).2 rfl
    simp [hline, hpath]
  rw [hcut] at h
  obtain ⟨_, h, -⟩ := cons_of_append_notMem hquoted h.symm
  rcases cons_of_append_eq h.symm with ⟨w, hbehind, rfl⟩ | ⟨q, h, -⟩
  · rw [List.append_assoc]
    exact hend _ (hs _ w (.inr hbehind)) (by decide) (by decide)
  · exact absurd (h ▸ by simp : '\n' ∈ [';']) (by decide)

/-- A statement that begins no line is passed over. -/
theorem Source.Statement.matchesFrom_skip {s : Statement} (hs : s.KeepsWord) {gap : List Char}
    (hgap : '\n' ∉ gap) {before : Option Char} (hb : atLineStart before = false) (rest : List Char) :
    matchesFrom import? 0 before (gap ++ (s.text ++ rest)) = matchesFrom import? 0 (some ';') rest := by
  rw [← List.append_assoc, isAnchored_import?.matchesFrom_quiet (fun u v h => s.import?_none hs hgap h rest)
    (.inl hb), List.getLast?_append, s.getLast?_text]
  rfl

/-- A statement that white space with a line end stands in front of is taken. -/
theorem Source.Statement.matchesFrom_take (s : Statement) {gap : List Char} (hgap : IsBlank gap)
    {before : Option Char} (hb : atLineStart before = true ∨ '\n' ∈ gap) (rest : List Char) :
    matchesFrom import? 0 before (gap ++ (s.text ++ rest)) =
      s.path :: matchesFrom import? 0 (some ';') rest := by
  have hread := @Statement.import?_eq s none rfl [] nofun rest
  rw [isAnchored_import?.matchesFrom_of_fresh hgap hb, matchesFrom_of_some s.text_ne_nil hread, s.getLast?_text]
  rfl

/-- Statements with white space around them. -/
structure Sequence where
  lead : List Char
  first : Statement
  later : List (List Char × Statement)
  trail : List Char
  lead_blank : IsBlank lead
  later_apart : ∀ x ∈ later, IsGap x.1
  later_keeps : ∀ x ∈ later, x.2.KeepsWord
  trail_blank : IsBlank trail

theorem Search.imported_cons {u : RawText × RawText} {units : List (RawText × RawText)} {n : RawText} :
    Imported (u :: units) n ↔ (∃ p ∈ importsOf u.2, unitOf u.1 p = n) ∨ Imported units n := by
  simp [Imported]

namespace Sequence

def text (q : Sequence) : List Char :=
  q.lead ++ (q.first.text ++ (q.later.flatMap (fun x => x.1 ++ x.2.text) ++ q.trail))

def statements (q : Sequence) : List Statement :=
  q.first :: q.later.map (·.2)

/-- The statements that begin a line. -/
def begun (q : Sequence) : List Statement :=
  q.first :: (q.later.filter ('\n' ∈ ·.1)).map (·.2)

theorem matchesFrom_later {later : List (List Char × Statement)} {trail : List Char}
    (hgaps : ∀ x ∈ later, IsGap x.1) (hkeeps : ∀ x ∈ later, x.2.KeepsWord) (htrail : IsBlank trail) :
    matchesFrom import? 0 (some ';') (later.flatMap (fun x => x.1 ++ x.2.text) ++ trail) =
      ((later.filter ('\n' ∈ ·.1)).map (·.2)).map Statement.path := by
  induction later with
  | nil => exact matchesFrom_of_unquoted (fun c hc => isQuote_of_isBlank (htrail c hc)) 0 _
  | cons x later ih =>
    have ih := ih (fun y hy => hgaps y (List.mem_cons_of_mem x hy)) fun y hy => hkeeps y (List.mem_cons_of_mem x hy)
    rw [List.flatMap_cons, List.append_assoc, List.append_assoc]
    by_cases hline : '\n' ∈ x.1
    · rw [x.2.matchesFrom_take (hgaps x List.mem_cons_self).2 (.inr hline), ih,
        List.filter_cons_of_pos (by simpa using hline)]
      rfl
    · rw [Statement.matchesFrom_skip (hkeeps x List.mem_cons_self) hline rfl, ih,
        List.filter_cons_of_neg (by simpa using hline)]

theorem imports_text (q : Sequence) : imports (String.ofList q.text) =
    q.begun.map (String.ofList ·.path) := by
  rw [imports, String.toList_ofList, text, allMatches, q.first.matchesFrom_take q.lead_blank (.inl rfl),
    matchesFrom_later q.later_apart q.later_keeps q.trail_blank, begun]
  simp

/-- Every statement begins a line exactly if as many do as there are. -/
theorem length_begun_eq_iff (q : Sequence) :
    q.begun.length = q.statements.length ↔ ∀ x ∈ q.later, '\n' ∈ x.1 := by
  simp [begun, statements, List.length_filter_eq_length_iff]

end Sequence

/-- Of statements one after another, a source imports the first and those that a line end stands in front
of, each with its path and in their order, hence all of them exactly if line ends stand between all. The
search finds what these and the units found import. -/
theorem imports_sequence (q : Sequence) :
    let source := String.ofList q.text
    (imports source = q.begun.map (String.ofList ·.path)) ∧
      (imports source = q.statements.map (String.ofList ·.path) ↔ ∀ x ∈ q.later, '\n' ∈ x.1) ∧
      ∀ find name, {n | Needed find [(name, .formed source)] n}.Finite → ∀ n t, n ≠ name → find n = some t →
        ((n, t) ∈ (finish find (start [(name, .formed source)])).found ↔
          (∃ s ∈ q.begun, unitOf name (.formed (String.ofList s.path)) = n) ∨
            Imported (finish find (start [(name, .formed source)])).found n) := by
  intro source
  refine ⟨q.imports_text, ?_, fun find name hfin n t hname ht => ?_⟩
  · rw [q.imports_text]
    constructor
    · intro h
      simpa using (q.length_begun_eq_iff.1 (by simpa using congrArg List.length h))
    · intro h
      have hall : q.later.filter ('\n' ∈ ·.1) = q.later := List.filter_eq_self.2 (by simpa using h)
      rw [Sequence.begun, hall, Sequence.statements]
  · have hnew : n ∉ [(name, RawText.formed source)].map (·.1) := by simpa using hname
    rw [mem_found_iff_imported hfin, List.singleton_append, imported_cons, importsOf, q.imports_text]
    simp only [hnew, ht, not_false_iff, true_and, List.mem_map, exists_exists_and_eq_and]

theorem keepsWord_of_notMem {s : Statement} (h : '\n' ∉ s.between ++ s.behind) : s.KeepsWord := by
  rintro u v (hbetween | hbehind)
  · exact absurd (by simp [hbetween]) h
  · exact absurd (by simp [hbehind]) h

theorem imports_sequence_left_out :
    let source := "import \"a.sol\"; import \"b.sol\";"
    let held : List (RawText × RawText) := [("a.sol", "contract A {}"), ("b.sol", "contract B {}")]
    let found := (finish (held.lookup ·) (start [("M.sol", source)])).found
    (imports source ≠ ["a.sol", "b.sol"]) ∧ (.formed "a.sol", .formed "contract A {}") ∈ found ∧
      (.formed "b.sol", .formed "contract B {}") ∉ found := by
  intro source held found
  let statement (path : List Char) (hpath : path ≠ [])
    (hplain : path.all (fun c => !isQuote c && c != '\n') = true) : Statement :=
    ⟨[' '], '"', path, [], .whole isGap_space nofun, by decide, hpath, hplain⟩
  let q : Sequence := {
    lead := []
    first := statement "a.sol".toList (by decide) (by decide)
    later := [([' '], statement "b.sol".toList (by decide) (by decide))]
    trail := []
    lead_blank := nofun
    later_apart := by simpa using isGap_space
    later_keeps := by simpa using keepsWord_of_notMem (by decide)
    trail_blank := nofun }
  have hsource : String.ofList q.text = source := by decide
  obtain ⟨-, hall, hfound⟩ := imports_sequence q
  rw [hsource] at hall hfound
  have hfound := hfound (held.lookup ·) "M.sol" (finite_needed_lookup held _)
  refine ⟨fun h => ?_, ?_, fun h => ?_⟩
  · exact absurd (hall.1 h ([' '], _) List.mem_cons_self) (by decide)
  · exact (hfound "a.sol" _ (by decide) (by decide)).2 (.inl ⟨q.first, List.mem_cons_self, by decide⟩)
  · rcases (hfound "b.sol" _ (by decide) (by decide)).1 h with ⟨s, hs, hname⟩ | ⟨u, hu, p, hp, -⟩
    · obtain rfl : s = q.first := by simpa [Sequence.begun, q] using hs
      exact absurd hname (by decide)
    · have hheld : u ∈ held := mem_of_lookup ((finish_spec (finite_needed_lookup held _)).1.found_needed u hu).2
      have hnone : ∀ u ∈ held, importsOf u.2 = [] := by decide
      rw [hnone u hheld] at hp
      cases hp

end Solwright
