import Mathlib.Data.Set.Finite.Basic
import Solwright.Library.Closure

/-! The search for imported units against what it looks for: `Needed` is the least set of names that
the given units and the needed ones import and that can be found. `Inv` is kept by every look-up, and
where it holds with nothing left to follow, the units found are the needed ones. -/

namespace Solwright.Search

open Solwright.Source

variable {find : RawText → Option RawText} {units : List (RawText × RawText)}

/-- A name that one of some units imports. -/
def Imported (units : List (RawText × RawText)) (name : RawText) : Prop :=
  ∃ u ∈ units, ∃ p ∈ importsOf u.2, unitOf u.1 p = name

/-- The names of the units to be found: they are new, they can be found, and a given unit or a needed
one imports them. -/
inductive Needed (find : RawText → Option RawText) (units : List (RawText × RawText)) : RawText → Prop
  | given {u : RawText × RawText} {p : RawText} : u ∈ units → p ∈ importsOf u.2 →
      unitOf u.1 p ∉ units.map (·.1) → (find (unitOf u.1 p)).isSome → Needed find units (unitOf u.1 p)
  | found {n t p : RawText} : Needed find units n → find n = some t → p ∈ importsOf t →
      unitOf n p ∉ units.map (·.1) → (find (unitOf n p)).isSome → Needed find units (unitOf n p)

theorem Needed.fresh {n : RawText} (h : Needed find units n) : n ∉ units.map (·.1) := by
  cases h <;> assumption

theorem Needed.isSome {n : RawText} (h : Needed find units n) : (find n).isSome := by
  cases h <;> assumption

/-- What a search keeps. The units that need not be followed any more are those that do not wait. -/
structure Inv (find : RawText → Option RawText) (units : List (RawText × RawText)) (s : Search) : Prop where
  seen_given : units.map (·.1) <+: s.seen
  seen_found : ∀ n ∈ s.seen, n ∉ units.map (·.1) → ∀ t, find n = some t → (n, t) ∈ s.found
  found_seen : ∀ u ∈ s.found, u.1 ∈ s.seen
  found_needed : ∀ u ∈ s.found, Needed find units u.1 ∧ find u.1 = some u.2
  found_imported : ∀ u ∈ s.found, Imported (units ++ s.found) u.1
  found_nodup : (s.found.map (·.1)).Nodup
  pending_known : ∀ u ∈ s.pending, u ∈ units ++ s.found

/-- Every import of a unit has been looked up. -/
def Followed (s : Search) (u : RawText × RawText) : Prop :=
  ∀ p ∈ importsOf u.2, unitOf u.1 p ∈ s.seen

theorem inv_start : Inv find units (start units) where
  seen_given := List.prefix_refl _
  seen_found n hn hnew := absurd hn hnew
  found_seen u hu := by cases hu
  found_needed u hu := by cases hu
  found_imported u hu := by cases hu
  found_nodup := List.nodup_nil
  pending_known u hu := by simpa [start] using hu

/-- What a search can come to later: more names are seen, and what is found waits in front. -/
structure Extends (s s' : Search) : Prop where
  seen : s.seen <+: s'.seen
  new : ∃ new, s'.pending = new.reverse ++ s.pending ∧ s'.found = s.found ++ new

theorem Extends.refl (s : Search) : Extends s s := ⟨List.prefix_refl _, [], rfl, by simp⟩

theorem Extends.trans {a b c : Search} (h : Extends a b) (h' : Extends b c) : Extends a c := by
  obtain ⟨hs, n, hp, hf⟩ := h
  obtain ⟨hs', n', hp', hf'⟩ := h'
  exact ⟨hs.trans hs', n ++ n', by simp [hp, hp'], by simp [hf, hf']⟩

/-- All that following an import can do. -/
inductive Follows (find : RawText → Option RawText) (s : Search) (name : RawText) : Search → Prop
  | known : name ∈ s.seen → Follows find s name s
  | missing : name ∉ s.seen → find name = none →
      Follows find s name { s with seen := s.seen ++ [name] }
  | found (t : RawText) : name ∉ s.seen → find name = some t →
      Follows find s name ⟨(name, t) :: s.pending, s.seen ++ [name], s.found ++ [(name, t)]⟩

theorem follows_follow (find : RawText → Option RawText) (importer : RawText) (s : Search) (path : RawText) :
    Follows find s (unitOf importer path) (s.follow find importer path) := by
  simp only [follow]
  split
  next h => exact .known (by simpa using h)
  next h =>
    have hnew : unitOf importer path ∉ s.seen := by simpa using h
    split
    next t ht => exact .found t hnew ht
    next hn => exact .missing hnew hn

theorem Follows.extends {s s' : Search} {name : RawText} (h : Follows find s name s') : Extends s s' := by
  cases h with
  | known hs => exact .refl s
  | missing hs hn => exact ⟨List.prefix_append _ _, [], rfl, by simp⟩
  | found t hs ht => exact ⟨List.prefix_append _ _, [(name, t)], rfl, rfl⟩

theorem Follows.mem_seen {s s' : Search} {name : RawText} (h : Follows find s name s') :
    name ∈ s'.seen := by
  cases h with
  | known hs => exact hs
  | missing hs hn => simp
  | found t hs ht => simp

theorem Inv.follows {s s' : Search} (hi : Inv find units s) {u : RawText × RawText} {p : RawText}
    (hu : u ∈ units ++ s.found) (hp : p ∈ importsOf u.2) (h : Follows find s (unitOf u.1 p) s') :
    Inv find units s' := by
  cases h with
  | known hs => exact hi
  | missing hs hn =>
    exact { hi with
      seen_given := hi.seen_given.trans (List.prefix_append _ _)
      seen_found := by
        intro n hm hnew t ht
        rcases List.mem_append.1 hm with hm | hm
        · exact hi.seen_found n hm hnew t ht
        · rw [List.mem_singleton.1 hm, hn] at ht; cases ht
      found_seen := fun v hv => List.mem_append_left _ (hi.found_seen v hv) }
  | found t hs ht =>
    have hfresh : unitOf u.1 p ∉ units.map (·.1) := fun hm => hs (hi.seen_given.subset hm)
    have hneeded : Needed find units (unitOf u.1 p) := by
      rcases List.mem_append.1 hu with hu | hu
      · exact .given hu hp hfresh (by simp [ht])
      · obtain ⟨hn, hf⟩ := hi.found_needed u hu
        exact .found hn hf hp hfresh (by simp [ht])
    have hold : ∀ v ∈ units ++ s.found, v ∈ units ++ (s.found ++ [(unitOf u.1 p, t)]) := by
      intro v hv
      rw [← List.append_assoc]
      exact List.mem_append_left _ hv
    exact {
      seen_given := hi.seen_given.trans (List.prefix_append _ _)
      seen_found := by
        intro n hm hnew t' ht'
        rcases List.mem_append.1 hm with hm | hm
        · exact List.mem_append_left _ (hi.seen_found n hm hnew t' ht')
        · obtain rfl := List.mem_singleton.1 hm
          obtain rfl := Option.some.inj (ht.symm.trans ht')
          simp
      found_seen := by
        intro v hv
        rcases List.mem_append.1 hv with hv | hv
        · exact List.mem_append_left _ (hi.found_seen v hv)
        · simp [List.mem_singleton.1 hv]
      found_needed := by
        intro v hv
        rcases List.mem_append.1 hv with hv | hv
        · exact hi.found_needed v hv
        · rw [List.mem_singleton.1 hv]; exact ⟨hneeded, ht⟩
      found_imported := by
        intro v hv
        rcases List.mem_append.1 hv with hv | hv
        · obtain ⟨w, hw, q, hq⟩ := hi.found_imported v hv
          exact ⟨w, hold w hw, q, hq⟩
        · rw [List.mem_singleton.1 hv]; exact ⟨u, hold u hu, p, hp, rfl⟩
      found_nodup := by
        rw [List.map_append, List.nodup_append]
        refine ⟨hi.found_nodup, by simp, ?_⟩
        intro n hn m hm
        obtain ⟨v, hv, rfl⟩ := List.mem_map.1 hn
        obtain rfl := List.mem_singleton.1 hm
        intro he
        have hv' := hi.found_seen v hv
        rw [he] at hv'
        exact hs hv'
      pending_known := by
        intro v hv
        rcases List.mem_cons.1 hv with rfl | hv
        · simp
        · exact hold v (hi.pending_known v hv) }

theorem foldl_follow {s : Search} (hi : Inv find units s) {u : RawText × RawText}
    (hu : u ∈ units ++ s.found) {ps : List RawText} (hps : ∀ p ∈ ps, p ∈ importsOf u.2) :
    let s' := ps.foldl (follow find u.1) s
    Inv find units s' ∧ Extends s s' ∧ ∀ p ∈ ps, unitOf u.1 p ∈ s'.seen := by
  induction ps generalizing s with
  | nil => exact ⟨hi, .refl s, by simp⟩
  | cons p ps ih =>
    have hf := follows_follow find u.1 s p
    have hi' := hi.follows hu (hps p List.mem_cons_self) hf
    have hu' : u ∈ units ++ (s.follow find u.1 p).found := by
      obtain ⟨-, new, -, hfound⟩ := hf.extends
      rw [hfound, ← List.append_assoc]
      exact List.mem_append_left _ hu
    obtain ⟨h1, h2, h3⟩ := ih hi' hu' fun q hq => hps q (List.mem_cons_of_mem p hq)
    refine ⟨h1, hf.extends.trans h2, fun q hq => ?_⟩
    rcases List.mem_cons.1 hq with rfl | hq
    · exact h2.seen.subset hf.mem_seen
    · exact h3 q hq

/-- The units that do not wait have been followed. -/
def Done (units : List (RawText × RawText)) (s : Search) : Prop :=
  ∀ u ∈ units ++ s.found, u ∈ s.pending ∨ Followed s u

theorem done_start : Done units (start units) := by
  intro u hu
  exact .inl (by simpa [start] using hu)

theorem Followed.mono {s s' : Search} (h : s.seen <+: s'.seen) {u : RawText × RawText}
    (hu : Followed s u) : Followed s' u := fun p hp => h.subset (hu p hp)

theorem step_nil (find : RawText → Option RawText) {s : Search} (h : s.pending = []) :
    s.step find = s := by
  simp [step, h]

/-- A step follows one unit that waits; as many units wait in its place as are found. -/
theorem inv_step {s : Search} (hi : Inv find units s) (hd : Done units s) (hne : s.pending ≠ []) :
    Inv find units (s.step find) ∧ Done units (s.step find) ∧
      (s.step find).pending.length + s.found.length + 1 =
        s.pending.length + (s.step find).found.length := by
  obtain ⟨u, rest, hp⟩ := List.exists_cons_of_ne_nil hne
  have hu : u ∈ units ++ s.found := hi.pending_known u (by simp [hp])
  have hi' : Inv find units { s with pending := rest } :=
    { hi with pending_known := fun v hv => hi.pending_known v (by simp [hp, hv]) }
  obtain ⟨h1, ⟨hseen, new, hpend, hfound⟩, h3⟩ :=
    foldl_follow hi' hu fun q (hq : q ∈ importsOf u.2) => hq
  have hstep : s.step find = (importsOf u.2).foldl (follow find u.1) { s with pending := rest } := by
    rw [step, hp]
  rw [← hstep] at h1 hseen hpend hfound h3
  refine ⟨h1, fun v hv => ?_, ?_⟩
  · rw [hfound, ← List.append_assoc, List.mem_append] at hv
    rcases hv with hv | hv
    · rcases hd v hv with hw | hw
      · rw [hp, List.mem_cons] at hw
        rcases hw with rfl | hw
        · exact .inr h3
        · exact .inl (by rw [hpend]; exact List.mem_append_right _ hw)
      · exact .inr (hw.mono hseen)
    · exact .inl (by rw [hpend]; simp [hv])
  · simp only [hpend, hfound, hp, List.length_append, List.length_reverse, List.length_cons]
    omega

/-- A search after a number of steps. -/
def after (find : RawText → Option RawText) : Nat → Search → Search
  | 0, s => s
  | n + 1, s => after find n (s.step find)

theorem after_nil (n : Nat) {s : Search} (h : s.pending = []) : after find n s = s := by
  induction n with
  | zero => rfl
  | succ n ih => rw [after, step_nil find h, ih]

/-- The loop with its first round taken out. -/
theorem finish_eq (find : RawText → Option RawText) (s : Search) :
    finish find s = if s.pending.isEmpty then s else finish find (s.step find) := by
  have : Nonempty Search := ⟨s⟩
  refine (repeatM_eq_of_monadTail (m := Id) s).trans ?_
  unfold repeatM.body
  dsimp only
  cases s.pending.isEmpty with
  | true => rfl
  | false => rfl

theorem finish_eq_after {n : Nat} {s : Search} (h : (after find n s).pending = []) :
    finish find s = after find n s := by
  induction n generalizing s with
  | zero =>
    have he : s.pending.isEmpty := List.isEmpty_iff.2 h
    rw [finish_eq, if_pos he, after]
  | succ n ih =>
    rw [finish_eq]
    split
    next he => rw [after_nil _ (List.isEmpty_iff.1 he)]
    next => exact ih h

theorem after_inv {s : Search} (hi : Inv find units s) (hd : Done units s) (n : Nat) :
    Inv find units (after find n s) ∧ Done units (after find n s) ∧
      ((after find n s).pending = [] ∨
        (after find n s).pending.length + s.found.length + n =
          s.pending.length + (after find n s).found.length) := by
  induction n generalizing s with
  | zero => exact ⟨hi, hd, .inr rfl⟩
  | succ n ih =>
    by_cases hne : s.pending = []
    · rw [after_nil _ hne]
      exact ⟨hi, hd, .inl hne⟩
    · obtain ⟨h1, h2, h3⟩ := inv_step hi hd hne
      obtain ⟨h4, h5, h6⟩ := ih h1 h2
      refine ⟨h4, h5, h6.imp id fun h6 => ?_⟩
      rw [after]
      omega

/-- The units found are no more than the needed ones. -/
theorem Inv.length_found_le {s : Search} (hi : Inv find units s)
    (hfin : {n | Needed find units n}.Finite) : s.found.length ≤ hfin.toFinset.card := by
  rw [← List.length_map (f := (·.1)), ← List.toFinset_card_of_nodup hi.found_nodup]
  apply Finset.card_le_card
  intro n hn
  obtain ⟨u, hu, rfl⟩ := List.mem_map.1 (List.mem_toFinset.1 hn)
  simpa using (hi.found_needed u hu).1

/-- Every round follows a unit, and only so many are found. -/
theorem after_nil_of_card_le (hfin : {n | Needed find units n}.Finite) {bound : Nat}
    (h : hfin.toFinset.card ≤ bound) : (after find (units.length + bound) (start units)).pending = [] := by
  obtain ⟨hi, -, hcount⟩ := after_inv (inv_start : Inv find units (start units)) done_start (units.length + bound)
  refine hcount.elim id fun hcount => List.eq_nil_of_length_eq_zero ?_
  have hle := hi.length_found_le hfin
  have hlen : (start units).pending.length = units.length := by simp [start]
  have hnil : (start units).found.length = 0 := rfl
  omega

/-- Where only finitely many units are needed, a search comes to its end. -/
theorem exists_after_nil (hfin : {n | Needed find units n}.Finite) :
    ∃ n, (after find n (start units)).pending = [] :=
  ⟨_, after_nil_of_card_le hfin (Nat.le_refl _)⟩

/-- What is known of a search at its end. -/
theorem finish_spec (hfin : {n | Needed find units n}.Finite) :
    let s := finish find (start units)
    Inv find units s ∧ ∀ u ∈ units ++ s.found, Followed s u := by
  obtain ⟨n, hn⟩ := exists_after_nil hfin
  obtain ⟨hi, hd, -⟩ := after_inv (inv_start : Inv find units (start units)) done_start n
  rw [finish_eq_after hn]
  refine ⟨hi, fun u hu => (hd u hu).resolve_left ?_⟩
  simp [hn]

theorem mem_found_iff (hfin : {n | Needed find units n}.Finite) {n t : RawText} :
    (n, t) ∈ (finish find (start units)).found ↔ Needed find units n ∧ find n = some t := by
  obtain ⟨hi, hf⟩ := finish_spec hfin
  constructor
  · exact fun hm => hi.found_needed _ hm
  · rintro ⟨hn, ht⟩
    -- by the way a name comes to be needed: its importer is there and has been followed
    induction hn generalizing t with
    | given hu hp hnew hs =>
      have hseen := hf _ (List.mem_append_left _ hu) _ hp
      exact hi.seen_found _ hseen hnew t ht
    | @found n t' p hn hm hp hnew hs ih =>
      have hseen := hf (n, t') (List.mem_append_right _ (ih hm)) p hp
      exact hi.seen_found _ hseen hnew t ht

end Solwright.Search
