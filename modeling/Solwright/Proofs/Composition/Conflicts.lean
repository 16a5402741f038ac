import Mathlib.Data.List.Dedup
import Solwright.Proofs.Composition.Accepted
import Solwright.Proofs.Composition.Functions

/-! The warnings about functions that several features define. `Ledger.Keeps` ties the ledger to the
functions noted so far; with the functions that a composed source defines, it follows that there is one
warning for every definition beyond the first of its name, and which warning that is. -/

namespace Solwright

open Solwright.Text Solwright.Source Solwright.Composition

section FirstAndLater

variable {α : Type} {p : α → Bool} {x y z : α} {xs zs : List α}

/-- The first value that passes a test, and a later one that passes it. -/
def FirstAndLater (p : α → Bool) (xs : List α) (x y : α) : Prop :=
  ∃ a b d, xs = a ++ x :: (b ++ y :: d) ∧ (∀ z ∈ a, p z = false) ∧ p x = true ∧ p y = true

theorem firstAndLater_cons_of_neg (hz : p z = false) :
    FirstAndLater p (z :: xs) x y ↔ FirstAndLater p xs x y := by
  constructor
  · rintro ⟨a, b, d, hsplit, ha, hx, hy⟩
    cases a with
    | nil =>
      obtain ⟨rfl, -⟩ := List.cons.inj hsplit
      rw [hz] at hx
      cases hx
    | cons w a =>
      rw [List.cons_append, List.cons.injEq] at hsplit
      exact ⟨a, b, d, hsplit.2, fun v hv => ha v (List.mem_cons_of_mem w hv), hx, hy⟩
  · rintro ⟨a, b, d, rfl, ha, hx, hy⟩
    exact ⟨z :: a, b, d, rfl, List.forall_mem_cons.2 ⟨hz, ha⟩, hx, hy⟩

theorem firstAndLater_cons_of_pos (hz : p z = true) :
    FirstAndLater p (z :: xs) x y ↔ x = z ∧ y ∈ xs ∧ p y = true := by
  constructor
  · rintro ⟨a, b, d, hsplit, ha, hx, hy⟩
    cases a with
    | nil =>
      obtain ⟨rfl, rfl⟩ := List.cons.inj hsplit
      exact ⟨rfl, by simp, hy⟩
    | cons w a =>
      obtain ⟨rfl, -⟩ := List.cons.inj hsplit
      rw [ha _ List.mem_cons_self] at hz
      cases hz
  · rintro ⟨rfl, hmem, hy⟩
    obtain ⟨b, d, rfl⟩ := List.append_of_mem hmem
    exact ⟨[], b, d, rfl, nofun, hz, hy⟩

theorem firstAndLater_append_of_neg (hzs : ∀ z ∈ zs, p z = false) :
    FirstAndLater p (zs ++ xs) x y ↔ FirstAndLater p xs x y := by
  induction zs with
  | nil => exact Iff.rfl
  | cons z zs ih =>
    rw [List.forall_mem_cons] at hzs
    rw [List.cons_append, firstAndLater_cons_of_neg hzs.1, ih hzs.2]

theorem not_firstAndLater_nil : ¬FirstAndLater p [] x y := by
  rintro ⟨a, b, d, h, -⟩
  simp at h

/-- One more value is the later one only if it passes the test and another one did before. -/
theorem firstAndLater_concat : FirstAndLater p (xs ++ [z]) x y ↔
    FirstAndLater p xs x y ∨ xs.find? p = some x ∧ y = z ∧ p z = true := by
  induction xs with
  | nil =>
    rw [List.nil_append]
    cases hz : p z with
    | false =>
      rw [firstAndLater_cons_of_neg hz]
      simp
    | true =>
      rw [firstAndLater_cons_of_pos hz]
      simp [not_firstAndLater_nil]
  | cons w xs ih =>
    rw [List.cons_append]
    cases hw : p w with
    | false =>
      rw [firstAndLater_cons_of_neg hw, firstAndLater_cons_of_neg hw, List.find?_cons_of_neg (by simp [hw])]
      exact ih
    | true =>
      rw [firstAndLater_cons_of_pos hw, firstAndLater_cons_of_pos hw, List.find?_cons_of_pos hw,
        List.mem_append, List.mem_singleton, Option.some.injEq]
      constructor
      · rintro ⟨rfl, h | rfl, hy⟩
        · exact .inl ⟨rfl, h, hy⟩
        · exact .inr ⟨rfl, rfl, hy⟩
      · rintro (⟨rfl, h, hy⟩ | ⟨rfl, rfl, hy⟩)
        · exact ⟨rfl, .inl h, hy⟩
        · exact ⟨rfl, .inr rfl, hy⟩

end FirstAndLater

/-- The functions of a fragment, as they are scanned for their names. -/
def Fragment.methodText (p : Fragment) : String :=
  joined "\n" (p.methods.map Method.text)

/-- Whether a fragment defines a function. -/
def Fragment.defines (p : Fragment) (m : String) : Bool :=
  (functions p.methodText.toList).contains m.toList

namespace Composition

variable {family : Family}

/-- The names of the functions that a feature brings to a family. -/
def methodNames (family : Family) (f : Feature) : List String :=
  (Fragment.of (some family) f).methods.map (·.name)

/-- The functions that features bring, each with its feature, in order. -/
def notesOf (family : Family) (features : List Feature) : List (Feature × String) :=
  features.flatMap fun f => (methodNames family f).map fun m => (f, m)

/-- What a ledger holds after some functions were noted. -/
structure Ledger.Keeps (family : Family) (notes : List (Feature × String)) (l : Ledger) : Prop where
  names : l.definedBy.map (·.1) = firstSeen (notes.map (·.2))
  first : ∀ m, l.definedBy.lookup m = (notes.find? (·.2 == m)).map (·.1)
  count : l.definedBy.length + l.conflicts.length = notes.length
  conflicts : ∀ c, c ∈ l.conflicts ↔ c.family = family ∧
    FirstAndLater (·.2 == c.method) notes (c.first, c.method) (c.second, c.method)

theorem Ledger.keeps_nil : Keeps family [] ⟨[], []⟩ where
  names := rfl
  first _ := rfl
  count := rfl
  conflicts _ := iff_of_false List.not_mem_nil fun h => not_firstAndLater_nil h.2

/-- A function of a new name is kept with its feature. -/
theorem Ledger.Keeps.defined {notes : List (Feature × String)} {l : Ledger} (h : Keeps family notes l)
    (f : Feature) {m : String} (hm : notes.find? (·.2 == m) = none) :
    Keeps family (notes ++ [(f, m)]) { l with definedBy := l.definedBy ++ [(m, f)] } := by
  have hnew : m ∉ firstSeen (notes.map (·.2)) := by
    rw [mem_firstSeen, List.mem_map]
    rintro ⟨n, hn, rfl⟩
    exact List.find?_eq_none.1 hm n hn (beq_self_eq_true n.2)
  refine ⟨?_, fun m' => ?_, ?_, fun c => ?_⟩
  · rw [List.map_append, List.map_append, h.names, List.map_singleton, List.map_singleton, firstSeen_concat,
      addNew_of_notMem hnew]
  · rw [List.lookup_append, h.first, List.find?_append, Option.map_or]
    congr 1
    rw [List.lookup_cons, List.lookup_nil, List.find?_singleton]
    by_cases hm' : m' = m
    · simp [hm']
    · simp [beq_eq_false_iff_ne.2 hm', beq_eq_false_iff_ne.2 (Ne.symm hm')]
  · have hcount := h.count
    simp only [List.length_append, List.length_singleton]
    omega
  · rw [h.conflicts, firstAndLater_concat]
    refine and_congr_right fun _ => ⟨.inl, fun hc => hc.resolve_right ?_⟩
    rintro ⟨hfirst, heq, -⟩
    obtain ⟨-, rfl⟩ := Prod.mk.inj heq
    rw [hm] at hfirst
    cases hfirst

/-- A function of a known name makes a conflict with the feature that is kept for it. -/
theorem Ledger.Keeps.clashed {notes : List (Feature × String)} {l : Ledger} (h : Keeps family notes l)
    (f : Feature) {m : String} {first : Feature} (hm : notes.find? (·.2 == m) = some (first, m)) :
    Keeps family (notes ++ [(f, m)]) { l with conflicts := l.conflicts ++ [⟨first, f, m, family⟩] } := by
  have hknown : m ∈ firstSeen (notes.map (·.2)) :=
    mem_firstSeen.2 (List.mem_map.2 ⟨(first, m), List.mem_of_find?_eq_some hm, rfl⟩)
  refine ⟨?_, fun m' => ?_, ?_, fun c => ?_⟩
  · rw [List.map_append, List.map_singleton, firstSeen_concat, addNew_of_mem hknown]
    exact h.names
  · rw [h.first, List.find?_append]
    by_cases hm' : m' = m
    · rw [hm', hm, Option.some_or]
    · simp [beq_eq_false_iff_ne.2 (Ne.symm hm')]
  · have hcount := h.count
    simp only [List.length_append, List.length_singleton]
    omega
  · rw [List.mem_append, List.mem_singleton, h.conflicts, firstAndLater_concat, and_or_left]
    refine or_congr_right ⟨?_, ?_⟩
    · rintro rfl
      exact ⟨rfl, hm, rfl, beq_self_eq_true m⟩
    · rintro ⟨hfamily, hfirst, heq, -⟩
      obtain ⟨hsecond, hmethod⟩ := Prod.mk.inj heq
      rw [hmethod, hm] at hfirst
      obtain ⟨hfirst, -⟩ := Prod.mk.inj (Option.some.inj hfirst)
      obtain ⟨c₁, c₂, c₃, c₄⟩ := c
      rw [Conflict.mk.injEq]
      exact ⟨hfirst.symm, hsecond, hmethod, hfamily⟩

/-- The step of a ledger: one more function is noted. -/
theorem Ledger.Keeps.note {notes : List (Feature × String)} {l : Ledger} (h : Keeps family notes l)
    (f : Feature) (m : String) : Keeps family (notes ++ [(f, m)]) (l.note family f m) := by
  have hlookup := h.first m
  unfold Ledger.note
  cases hm : l.definedBy.lookup m with
  | none =>
    rw [hm] at hlookup
    exact h.defined f (Option.map_eq_none_iff.1 hlookup.symm)
  | some first =>
    rw [hm] at hlookup
    obtain ⟨⟨g, m'⟩, hfind, rfl⟩ := Option.map_eq_some_iff.1 hlookup.symm
    obtain rfl : m' = m := by simpa using List.find?_some hfind
    exact h.clashed f hfind

theorem Ledger.Keeps.notes {notes : List (Feature × String)} {l : Ledger} (h : Keeps family notes l)
    (f : Feature) (names : List String) :
    Keeps family (notes ++ names.map fun m => (f, m)) (names.foldl (Ledger.note family f) l) := by
  induction names generalizing notes l with
  | nil => rwa [List.map_nil, List.append_nil]
  | cons m names ih =>
    rw [List.map_cons, List.append_cons, List.foldl_cons]
    exact ih (h.note f m)

/-- What is checked of the functions of each family: no fragment brings two of one name, none has the name
of one of the base contract, and a scan of those of a fragment finds their names. -/
theorem methodNames_spec (family : Family) (f : Feature) : (methodNames family f).Nodup ∧
    (f ∈ (Template.of family).features →
      ∀ m ∈ (Template.of family).methods.map Method.name, m ∉ methodNames family f) ∧
    functions (Fragment.of (some family) f).methodText.toList = (methodNames family f).map String.toList := by
  have hall : Family.all.all fun family => Feature.all.all fun f =>
      decide ((methodNames family f).Nodup ∧ (f ∈ (Template.of family).features →
        ∀ m ∈ (Template.of family).methods.map Method.name, m ∉ methodNames family f)) &&
      passes (defines (methodNames family f)) (Fragment.of (some family) f).methodText := by decide +kernel
  have h := Feature.of_all (Family.of_all hall family) f
  rw [Bool.and_eq_true, decide_eq_true_eq] at h
  exact ⟨h.1.1, h.1.2, functions_of_defines (of_passes h.2)⟩

/-- The ledger of some features holds what they bring. -/
theorem Ledger.keeps_notesOf (family : Family) (features : List Feature) :
    Keeps family (notesOf family features) (features.foldl (Ledger.add family) ⟨[], []⟩) := by
  induction features using List.reverseRecOn with
  | nil => exact keeps_nil
  | append_singleton features f ih =>
    have hadd : ∀ l, Ledger.add family l f = (methodNames family f).foldl (Ledger.note family f) l := fun l => by
      rw [Ledger.add, ← methodNames, firstSeen_of_nodup (methodNames_spec family f).1]
    rw [List.foldl_append, List.foldl_cons, List.foldl_nil, hadd, notesOf, List.flatMap_append,
      List.flatMap_singleton]
    exact ih.notes f _

theorem mem_notesOf {features : List Feature} {f : Feature} {m : String} :
    (f, m) ∈ notesOf family features ↔ f ∈ features ∧ m ∈ methodNames family f := by
  simp [notesOf]

theorem other_of_notMem {names : List String} {m : String} (h : m ∉ names) (f : Feature) :
    ∀ n ∈ names.map fun m' => (f, m'), (n.2 == m) = false := by
  intro n hn
  obtain ⟨m', hm', rfl⟩ := List.mem_map.1 hn
  exact beq_eq_false_iff_ne.2 (ne_of_mem_of_not_mem hm' h)

/-- Of the functions of a name, the first and a later one come from the first feature that brings one and
a later one. -/
theorem firstAndLater_notesOf {features : List Feature} {f g : Feature} {m : String} :
    FirstAndLater (·.2 == m) (notesOf family features) (f, m) (g, m) ↔
      FirstAndLater (fun f => (methodNames family f).contains m) features f g := by
  let brings (f : Feature) : Bool := (methodNames family f).contains m
  induction features with
  | nil => exact iff_of_false not_firstAndLater_nil not_firstAndLater_nil
  | cons e features ih =>
    rw [notesOf, List.flatMap_cons, ← notesOf]
    cases he : (methodNames family e).contains m with
    | false =>
      have hnone : m ∉ methodNames family e := fun hm => by
        rw [List.contains_iff_mem.2 hm] at he
        cases he
      rw [firstAndLater_cons_of_neg (p := brings) he, firstAndLater_append_of_neg (other_of_notMem hnone e)]
      exact ih
    | true =>
      obtain ⟨a, b, hsplit⟩ := List.append_of_mem (List.contains_iff_mem.1 he)
      have hnodup := (methodNames_spec family e).1
      rw [hsplit, List.nodup_middle, List.nodup_cons, List.mem_append, not_or] at hnodup
      rw [firstAndLater_cons_of_pos (p := brings) he, hsplit, List.map_append, List.map_cons, List.append_assoc,
        firstAndLater_append_of_neg (other_of_notMem hnodup.1.1 e), List.cons_append,
        firstAndLater_cons_of_pos (p := fun n : Feature × String => n.2 == m) (beq_self_eq_true m)]
      simp [hnodup.1.2, mem_notesOf, brings]

theorem contains_methodNames (f : Feature) (m : String) :
    (methodNames family f).contains m = (Fragment.of (some family) f).defines m := by
  rw [Fragment.defines, (methodNames_spec family f).2.2, Bool.eq_iff_iff, List.contains_iff_mem,
    List.contains_iff_mem, List.mem_map_of_injective fun a b => String.toList_inj.1]

theorem map_snd_notesOf (features : List Feature) :
    (notesOf family features).map (·.2) = features.flatMap (methodNames family) := by
  rw [notesOf, List.map_flatMap]
  simp only [List.map_map, Function.comp_def, List.map_id']

theorem functions_eq (r : Request) : functions r.compose.source.toList =
    ((Template.of r.family).methods.map Method.name ++ (notesOf r.family r.applied).map (·.2)).map
      String.toList := by
  rw [r.functions_compose, map_snd_notesOf, List.map_append, List.map_append, List.map_map, List.map_flatMap,
    List.map_flatMap]
  simp only [methodNames, List.map_map]
  rfl

/-- The distinct names of the functions of a composed contract are those of the base contract and those
that the ledger keeps. -/
theorem length_dedup_functions (r : Request) : (functions r.compose.source.toList).dedup.length =
    (Template.of r.family).methods.length + (firstSeen ((notesOf r.family r.applied).map (·.2))).length := by
  have hbase : ((Template.of r.family).methods.map Method.name).Nodup := by cases r.family <;> decide
  have hapart : ∀ m ∈ (Template.of r.family).methods.map Method.name,
      m ∉ (notesOf r.family r.applied).map (·.2) := by
    intro m hm hnote
    rw [map_snd_notesOf, List.mem_flatMap] at hnote
    obtain ⟨f, hf, hname⟩ := hnote
    exact (methodNames_spec r.family f).2.1 (Request.mem_applied.1 hf).1 m hm hname
  have hperm : ((Template.of r.family).methods.map Method.name ++ (notesOf r.family r.applied).map (·.2)).dedup.Perm
      ((Template.of r.family).methods.map Method.name ++ firstSeen ((notesOf r.family r.applied).map (·.2))) := by
    refine (List.perm_ext_iff_of_nodup (List.nodup_dedup _) ?_).2 fun m => ?_
    · refine hbase.append (nodup_firstSeen _) fun m hm hnote => hapart m hm (mem_firstSeen.1 hnote)
    · simp only [List.mem_dedup, List.mem_append, mem_firstSeen]
  rw [functions_eq, List.dedup_map_of_injective fun a b => String.toList_inj.1, List.length_map, hperm.length_eq,
    List.length_append, List.length_map]

end Composition

/-- There is one warning for every function of a composed contract beyond the first of its name. It names
the first applied feature whose fragment defines the function and a later one that does. -/
theorem conflicts_exact (r : Request) :
    r.compose.conflicts.length + (functions r.compose.source.toList).dedup.length =
      (functions r.compose.source.toList).length ∧
    (∀ c, c ∈ r.compose.conflicts ↔ c.family = r.family ∧
      FirstAndLater (fun f => (Fragment.of (some r.family) f).defines c.method) r.applied c.first c.second) ∧
    ∀ s : Session, ((Session.generate r).run s).2.journal.log =
      s.journal.log ++ r.compose.conflicts.map fun c => ⟨.warning, c.message⟩ := by
  have hledger := Ledger.keeps_notesOf r.family r.applied
  refine ⟨?_, fun c => ?_, fun s => ?_⟩
  · have hcount := hledger.count
    have hnames := congrArg List.length hledger.names
    rw [List.length_map] at hnames
    have hconflicts : r.compose.conflicts = (r.applied.foldl (Ledger.add r.family) ⟨[], []⟩).conflicts := rfl
    rw [length_dedup_functions, functions_eq, List.length_map, List.length_append, List.length_map, List.length_map,
      ← hnames, hconflicts]
    omega
  · rw [← funext fun f => contains_methodNames f c.method, ← firstAndLater_notesOf]
    exact hledger.conflicts c
  · rw [Session.run_generate]

end Solwright
