import Solwright.Proofs.Library.Closure
import Solwright.Proofs.Library.Spellings

/-! The end of every search for imports, and what it asks of the catalogue on the way. The search is run
with a resolver that keeps the names it is asked for and that may fail; it asks for the names that the
search looks up, each once, up to the first that cannot be looked up. -/

namespace Solwright

open Solwright.Source Solwright.Search Session

namespace Search

section Effects

variable {m : Type → Type} [Monad m] (find : RawText → m (Option RawText))

/-- Follows one import of a unit, with a resolver that has effects. -/
def followM (importer : RawText) (s : Search) (path : RawText) : m Search := do
  let name := unitOf importer path
  if s.seen.contains name then pure s else
  match ← find name with
  | some text => pure ⟨(name, text) :: s.pending, s.seen ++ [name], s.found ++ [(name, text)]⟩
  | none => pure { s with seen := s.seen ++ [name] }

/-- Follows the imports of the last unit that was put aside, with a resolver that has effects. -/
def stepM (s : Search) : m Search :=
  match s.pending with
  | [] => pure s
  | (name, text) :: rest => (importsOf text).foldlM (followM find name) { s with pending := rest }

/-- A number of steps with a resolver that has effects. -/
def afterM : Nat → Search → m Search
  | 0, s => pure s
  | n + 1, s => stepM find s >>= afterM n

end Effects

/-- Without effects the steps are those of the search. -/
theorem afterM_id (find : RawText → Option RawText) (n : Nat) (s : Search) :
    afterM (m := Id) find n s = after find n s := by
  have hfollow : ∀ importer, followM (m := Id) find importer = follow find importer := by
    intro importer
    funext s path
    rw [followM, follow]
    split
    · rfl
    · rfl
  have hstep : ∀ s, stepM (m := Id) find s = s.step find := by
    intro s
    rw [stepM, step]
    cases s.pending with
    | nil => rfl
    | cons u rest =>
      dsimp only
      rw [hfollow]
      exact List.foldlM_pure
  induction n generalizing s with
  | zero => rfl
  | succ n ih =>
    rw [afterM, hstep, after, ← ih]
    rfl

end Search

namespace Catalog

variable {c : Catalog}

/-- The catalogue as a resolver that keeps the names it is asked for. -/
def ask (c : Catalog) (name : RawText) : ExceptT Fault (StateM (List RawText)) (Option RawText) :=
  ExceptT.mk fun asked => (c.find name, asked ++ [name])

/-- The names up to the first that cannot be looked up. -/
def upToFault (c : Catalog) : List RawText → List RawText
  | [] => []
  | n :: ns => n :: if (c.fault? n).isSome then [] else c.upToFault ns

theorem upToFault_prefix (c : Catalog) (ns : List RawText) : c.upToFault ns <+: ns := by
  induction ns with
  | nil => exact List.prefix_rfl
  | cons n ns ih =>
    rw [upToFault]
    split
    · exact (List.prefix_cons_inj n).2 List.nil_prefix
    · exact (List.prefix_cons_inj n).2 ih

theorem upToFault_append (ns ns' : List RawText) : c.upToFault (ns ++ ns') =
    if (ns.findSome? c.fault?).isSome then c.upToFault ns else c.upToFault ns ++ c.upToFault ns' := by
  induction ns with
  | nil => rfl
  | cons n ns ih =>
    rw [List.cons_append, upToFault, upToFault, ih, List.findSome?_cons]
    cases c.fault? n with
    | some f => rfl
    | none =>
      simp only [Option.isSome_none, Bool.false_eq_true, if_false]
      split <;> rfl

/-- A piece of a search that asks for some new names, each once and up to a fault. -/
structure Asks (c : Catalog) (s s' : Search) (x : ExceptT Fault (StateM (List RawText)) Search)
    (new : List RawText) : Prop where
  seen : s'.seen = s.seen ++ new
  fresh : ∀ n ∈ new, n ∉ s.seen
  nodup : new.Nodup
  run : ∀ asked, x.run asked =
    (match new.findSome? c.fault? with
      | some f => .error f
      | none => .ok s', asked ++ c.upToFault new)

theorem Asks.pure (s : Search) : Asks c s s (pure s) [] where
  seen := (List.append_nil _).symm
  fresh := nofun
  nodup := .nil
  run asked := by
    rw [upToFault, List.append_nil]
    rfl

theorem Asks.bind {s s' s'' : Search} {x : ExceptT Fault (StateM (List RawText)) Search}
    {f : Search → ExceptT Fault (StateM (List RawText)) Search} {new new' : List RawText}
    (h : Asks c s s' x new) (h' : Asks c s' s'' (f s') new') : Asks c s s'' (x >>= f) (new ++ new') where
  seen := by rw [h'.seen, h.seen, List.append_assoc]
  fresh := by
    rw [List.forall_mem_append]
    refine ⟨h.fresh, fun n hn hs => h'.fresh n hn ?_⟩
    rw [h.seen]
    exact List.mem_append_left _ hs
  nodup := by
    refine h.nodup.append h'.nodup fun n hn hn' => h'.fresh n hn' ?_
    rw [h.seen]
    exact List.mem_append_right _ hn
  run asked := by
    rw [run_bind, h.run, List.findSome?_append, upToFault_append]
    cases new.findSome? c.fault? with
    | some f => rfl
    | none =>
      dsimp only
      rw [h'.run, Option.none_or, Option.isSome_none, if_neg Bool.false_ne_true, List.append_assoc]

/-- Following an import asks for its name unless it is known. -/
theorem exists_asks_followM (importer : RawText) (s : Search) (path : RawText) :
    ∃ new, Asks c s (s.follow c.find? importer path) (followM c.ask importer s path) new := by
  by_cases h : s.seen.contains (unitOf importer path) = true
  · rw [follow, followM, if_pos h, if_pos h]
    exact ⟨[], .pure s⟩
  · have hseen : unitOf importer path ∉ s.seen := by simpa using h
    refine ⟨[unitOf importer path], ?_, by simpa using hseen, List.nodup_singleton _, fun asked => ?_⟩
    · rw [follow, if_neg h]
      split <;> rfl
    · have hask : (c.ask (unitOf importer path)).run asked =
          (c.find (unitOf importer path), asked ++ [unitOf importer path]) := rfl
      rw [follow, followM, if_neg h, if_neg h, run_bind, hask, upToFault, upToFault, List.findSome?_singleton]
      unfold find? fault?
      rcases c.find (unitOf importer path) with f | _ | text <;> rfl

theorem exists_asks_foldlM (importer : RawText) (s : Search) (paths : List RawText) :
    ∃ new, Asks c s (paths.foldl (follow c.find? importer) s) (paths.foldlM (followM c.ask importer) s) new := by
  induction paths generalizing s with
  | nil => exact ⟨[], .pure s⟩
  | cons path paths ih =>
    obtain ⟨new, h⟩ := exists_asks_followM (c := c) importer s path
    obtain ⟨new', h'⟩ := ih (s.follow c.find? importer path)
    rw [List.foldl_cons, List.foldlM_cons]
    exact ⟨new ++ new', h.bind h'⟩

theorem exists_asks_stepM (s : Search) : ∃ new, Asks c s (s.step c.find?) (stepM c.ask s) new := by
  rw [step, stepM]
  cases s.pending with
  | nil => exact ⟨[], .pure s⟩
  | cons u rest =>
    obtain ⟨new, h⟩ := exists_asks_foldlM (c := c) u.1 { s with pending := rest } (importsOf u.2)
    exact ⟨new, h.seen, h.fresh, h.nodup, h.run⟩

theorem exists_asks_afterM (n : Nat) (s : Search) : ∃ new, Asks c s (after c.find? n s) (afterM c.ask n s) new := by
  induction n generalizing s with
  | zero => exact ⟨[], .pure s⟩
  | succ n ih =>
    obtain ⟨new, h⟩ := exists_asks_stepM (c := c) s
    obtain ⟨new', h'⟩ := ih (s.step c.find?)
    exact ⟨new ++ new', h.bind h'⟩

/-- As many rounds as there are units and spellings are enough. -/
theorem after_nil (units : List (RawText × RawText)) (hb : c.beginnings = ["@openzeppelin/contracts/"]) :
    (after c.find? (units.length + (c.spellings units).length) (start units)).pending = [] := by
  have hsub : {n | Needed c.find? units n} ⊆ {n | n ∈ c.spellings units} := fun n hn => mem_spellings_of_needed hb hn
  have hfin : {n | Needed c.find? units n}.Finite := (List.finite_toSet (c.spellings units)).subset hsub
  refine after_nil_of_card_le hfin ?_
  refine (Finset.card_le_card fun n hn => ?_).trans (List.toFinset_card_le (c.spellings units))
  exact List.mem_toFinset.2 (hsub (hfin.mem_toFinset.1 hn))

end Catalog

/-- Whatever units it starts from and whatever they import, a search in a catalogue of finitely many files
and sources comes to its end, in no more rounds than there are units and spellings. A resolver that keeps
what it is asked for is asked for the names that are looked up, until one of them cannot be: each once, and
for none of the given units. -/
theorem resolution_ends (root : Option (List (List Char))) (files : FileTree) (folders : List (List (List Char)))
    (sources units : List (RawText × RawText)) :
    let c : Catalog := { root := root, files := files, folders := folders, sources := sources }
    ∃ rounds ≤ units.length + (c.spellings units).length,
      (afterM (m := Id) c.find? rounds (start units)).pending = [] ∧
      c.search units = afterM (m := Id) c.find? rounds (start units) ∧
      ∃ asked, (afterM c.ask rounds (start units)).run [] =
          ((c.imported units).map fun _ => c.search units, asked) ∧
        asked <+: c.lookups units ∧ asked.Nodup ∧ ∀ n ∈ asked, n ∉ units.map (·.1) := by
  intro c
  have hnil := Catalog.after_nil (c := c) units rfl
  have hsearch : c.search units = _ := finish_eq_after hnil
  obtain ⟨new, h⟩ := Catalog.exists_asks_afterM (c := c) (units.length + (c.spellings units).length) (start units)
  have hlookups : c.lookups units = new := by
    rw [Catalog.lookups, hsearch, h.seen]
    exact List.drop_left' (List.length_map _)
  refine ⟨_, Nat.le_refl _, ?_, ?_, c.upToFault new, ?_, ?_, ?_, ?_⟩
  · rwa [afterM_id]
  · rwa [afterM_id]
  · rw [h.run, List.nil_append, Catalog.imported, hlookups, ← hsearch]
    cases new.findSome? c.fault? <;> rfl
  · rw [hlookups]
    exact c.upToFault_prefix new
  · exact h.nodup.sublist (c.upToFault_prefix new).sublist
  · exact fun n hn => h.fresh n ((c.upToFault_prefix new).subset hn)

end Solwright
