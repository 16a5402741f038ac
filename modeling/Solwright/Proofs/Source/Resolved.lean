import Mathlib.Data.List.DropRight
import Solwright.Proofs.Source.Segments

/-! What a relative path is made to. The name is normal, and to go on from it is to go on along the path that
led to it: what is reached over several units has one name, whichever unit the way is told from. -/

namespace Solwright.Source

open Solwright.Text
open Catalog (IsName way splitAt_way)

/-- What is kept after further segments have been read. -/
def keep (rooted : Bool) (kept : List (List Char)) (path : List Char) : List (List Char) :=
  (splitAt '/' path).foldl (enter rooted) kept

/-- A path as it is spelled: slashes, and then what was kept, last first. -/
def spelled (slashes : Nat) (kept : List (List Char)) : List Char :=
  List.replicate slashes '/' ++ joinWith ['/'] kept.reverse

/-- A path as it is named: as it is spelled, or with a dot where there is nothing to spell. -/
def named (slashes : Nat) (kept : List (List Char)) : List Char :=
  if (spelled slashes kept).isEmpty then ['.'] else spelled slashes kept

/-- An ordinary name stands last in a path. -/
def EndsInName (path : List Char) : Prop :=
  ∃ name, (splitAt '/' path).getLast? = some name ∧ IsName name

/-- The segments of a path, the slashes at its head apart. -/
def segments (path : List Char) : List (List Char) :=
  (splitAt '/' path).dropWhile List.isEmpty

/-- A normal path is a dot, or there are only steps up and then names in it, and at the root only names. -/
def IsNormal (path : List Char) : Prop :=
  path = ['.'] ∨ ∃ ups names, segments path = List.replicate ups ['.', '.'] ++ names ∧ (∀ s ∈ names, IsName s) ∧
    (path.head? = some '/' → ups = 0)

variable {rooted : Bool} {kept : List (List Char)}

section Keep

variable (rooted kept)

theorem keep_append_slash (a b : List Char) :
    keep rooted kept (a ++ '/' :: b) = keep rooted (keep rooted kept a) b := by
  rw [keep, splitAt_append_cons, List.foldl_append]
  rfl

theorem keep_slashes (n : Nat) (path : List Char) :
    keep rooted kept (List.replicate n '/' ++ path) = keep rooted kept path := by
  induction n with
  | zero => rfl
  | succ n ih => exact (keep_append_slash rooted kept [] _).trans ih

/-- Inside a folder a path goes on from what was kept of the folder. -/
theorem keep_inside (f path : List Char) :
    keep rooted kept (inside f path) = keep rooted (keep rooted kept f) path := by
  unfold inside
  split
  next h =>
    rw [Bool.or_eq_true, List.isEmpty_iff, beq_iff_eq, List.getLast?_eq_some_iff] at h
    rcases h with rfl | ⟨a, rfl⟩
    · rfl
    · rw [List.append_assoc, List.singleton_append, keep_append_slash, keep_append_slash]
      rfl
  · exact keep_append_slash rooted kept f path

variable {rooted kept}

theorem keep_name {name : List Char} (h : IsName name) (hslash : '/' ∉ name) :
    keep rooted kept name = name :: kept := by
  rw [keep, splitAt_of_notMem hslash]
  exact enter_of_isName h

theorem isKept_keep (h : IsKept rooted kept) (path : List Char) : IsKept rooted (keep rooted kept path) :=
  isKept_foldl h fun _ => notMem_of_mem_splitAt

end Keep

section Spelled

theorem splitAt_slashes (n : Nat) (path : List Char) :
    splitAt '/' (List.replicate n '/' ++ path) = List.replicate n [] ++ splitAt '/' path := by
  induction n with
  | zero => rfl
  | succ n ih => exact congrArg (List.cons []) ih

/-- The segments of what is spelled are those that were kept. -/
theorem splitAt_joinWith (h : IsKept rooted kept) (hne : kept ≠ []) :
    splitAt '/' (joinWith ['/'] kept.reverse) = kept.reverse := by
  obtain ⟨s, segments, hsegments⟩ := List.exists_cons_of_ne_nil (mt List.reverse_eq_nil_iff.1 hne)
  have hslash : ∀ t ∈ s :: segments, '/' ∉ t := fun t ht => (h.of_mem (List.mem_reverse.1 (hsegments ▸ ht))).2
  rw [List.forall_mem_cons] at hslash
  rw [hsegments, joinWith_way, splitAt_way hslash.2, splitAt_of_notMem hslash.1]
  rfl

theorem keep_spelled (h : IsKept rooted kept) (n : Nat) : keep rooted [] (spelled n kept) = kept := by
  rw [spelled, keep_slashes]
  rcases eq_or_ne kept [] with rfl | hne
  · rfl
  · rw [keep, splitAt_joinWith h hne]
    exact h.foldl_reverse

theorem segments_spelled (h : IsKept rooted kept) (n : Nat) : segments (spelled n kept) = kept.reverse := by
  have hslashes : ∀ s ∈ List.replicate n ([] : List Char), s.isEmpty = true := fun s hs => by
    rw [List.eq_of_mem_replicate hs]
    rfl
  rw [segments, spelled, splitAt_slashes, List.dropWhile_append_of_pos hslashes]
  rcases eq_or_ne kept [] with rfl | hne
  · rfl
  rw [splitAt_joinWith h hne]
  cases hsegments : kept.reverse with
  | nil => rfl
  | cons s segments =>
    have hs : s ≠ [] := (h.of_mem (List.mem_reverse.1 (hsegments ▸ List.mem_cons_self))).1
    exact List.dropWhile_cons_of_neg (by simpa using hs)

/-- What is spelled has no further slashes at its head. -/
theorem head?_joinWith (h : IsKept rooted kept) : (joinWith ['/'] kept.reverse).head?.any (· == '/') = false := by
  cases hsegments : kept.reverse with
  | nil => rfl
  | cons s segments =>
    obtain ⟨hne, hslash⟩ := h.of_mem (List.mem_reverse.1 (hsegments ▸ List.mem_cons_self))
    obtain ⟨c, s, rfl⟩ := List.exists_cons_of_ne_nil hne
    rw [joinWith_way]
    exact beq_eq_false_iff_ne.2 (List.ne_of_not_mem_cons hslash).symm

theorem isSlash_replicate (n : Nat) : ∀ c ∈ List.replicate n '/', (c == '/') = true := fun _ hc =>
  beq_iff_eq.2 (List.eq_of_mem_replicate hc)

theorem leadingSlashes_slashes {path : List Char} (h : path.head?.any (· == '/') = false) {n : Nat} (hn : n ≤ 2) :
    leadingSlashes (List.replicate n '/' ++ path) = n := by
  rw [leadingSlashes, List.takeWhile_append_of_pos (isSlash_replicate n), takeWhile_of_head h, List.append_nil,
    List.length_replicate]
  exact if_pos hn

end Spelled

theorem normal_eq (path : List Char) :
    normal path = named (leadingSlashes path) (keep (leadingSlashes path != 0) [] path) := rfl

theorem leadingSlashes_le (path : List Char) : leadingSlashes path ≤ 2 := by
  unfold leadingSlashes
  dsimp only
  split <;> omega

section Folder

variable {name : List Char}

theorem reverse_dropWhile_name (h : '/' ∉ name) (s : List Char) :
    (s ++ name).reverse.dropWhile (· != '/') = s.reverse.dropWhile (· != '/') := by
  rw [List.reverse_append]
  exact List.dropWhile_append_of_pos fun c hc => bne_iff_ne.2 fun he => h (he ▸ List.mem_reverse.1 hc)

/-- The folder of a name behind slashes is these slashes. -/
theorem folder_slashes (h : '/' ∉ name) (n : Nat) :
    folder (List.replicate n '/' ++ name) = List.replicate n '/' := by
  have hhead : (List.replicate n '/' ++ name).reverse.dropWhile (· != '/') = List.replicate n '/' := by
    rw [reverse_dropWhile_name h, List.reverse_replicate]
    cases n <;> rfl
  have hbare : (List.replicate n '/').dropWhile (· == '/') = [] :=
    List.dropWhile_eq_nil_iff.2 (isSlash_replicate n)
  rw [folder, hhead, hbare]
  exact List.reverse_replicate

/-- What stands before the last slash, less the slashes at its end. -/
theorem folder_append_slash (h : '/' ∉ name) {b : List Char} (hb : ∃ c ∈ b, c ≠ '/') :
    folder (b ++ '/' :: name) = b.rdropWhile (· == '/') := by
  have hhead : (b ++ '/' :: name).reverse.dropWhile (· != '/') = '/' :: b.reverse := by
    rw [List.append_cons, reverse_dropWhile_name h, List.reverse_append]
    rfl
  have hbare : ('/' :: b.reverse).dropWhile (· == '/') = b.reverse.dropWhile (· == '/') := rfl
  obtain ⟨c, hc, hvisible⟩ := hb
  have hne : b.reverse.dropWhile (· == '/') ≠ [] := fun he =>
    hvisible (beq_iff_eq.1 (List.dropWhile_eq_nil_iff.1 he c (List.mem_reverse.2 hc)))
  rw [folder, hhead, hbare, if_neg (mt List.isEmpty_iff.1 hne)]
  rfl

theorem exists_slashes (b : List Char) : ∃ n, b = b.rdropWhile (· == '/') ++ List.replicate n '/' := by
  have hslashes : b.reverse.takeWhile (· == '/') =
      List.replicate (b.reverse.takeWhile (· == '/')).length '/' :=
    List.eq_replicate_of_mem fun c hc => beq_iff_eq.1 (List.mem_takeWhile_imp (p := (· == '/')) hc)
  refine ⟨(b.reverse.takeWhile (· == '/')).length, List.reverse_injective ?_⟩
  rw [List.reverse_append, List.reverse_replicate, ← hslashes, List.rdropWhile, List.reverse_reverse]
  exact List.takeWhile_append_dropWhile.symm

theorem suffix_spelled (n : Nat) (s : List Char) (kept : List (List Char)) : s <:+ spelled n (s :: kept) := by
  rw [spelled, List.reverse_cons]
  rcases eq_or_ne kept.reverse [] with hnil | hne
  · rw [hnil]
    exact List.suffix_append _ _
  · rw [joinWith_append hne (List.cons_ne_nil s []), List.append_cons, ← List.append_assoc]
    exact List.suffix_append _ _

/-- Where something was kept, a path is named as it is spelled. -/
theorem named_cons {s : List Char} (hs : s ≠ []) (n : Nat) (kept : List (List Char)) :
    named n (s :: kept) = spelled n (s :: kept) := by
  refine if_neg fun hempty => hs ?_
  have hsuffix := suffix_spelled n s kept
  rwa [List.isEmpty_iff.1 hempty, List.suffix_nil] at hsuffix

theorem spelled_cons (hne : kept ≠ []) (n : Nat) : spelled n (name :: kept) = spelled n kept ++ '/' :: name := by
  rw [spelled, spelled, List.reverse_cons, joinWith_append (mt List.reverse_eq_nil_iff.1 hne) (List.cons_ne_nil _ _),
    List.append_assoc]
  rfl

/-- The folder of what is spelled is spelled without the last segment. -/
theorem folder_spelled (h : IsKept rooted kept) (hname : '/' ∉ name) (n : Nat) :
    folder (spelled n (name :: kept)) = spelled n kept := by
  rcases eq_or_ne kept [] with rfl | hne
  · rw [spelled, spelled]
    exact (folder_slashes hname n).trans (List.append_nil _).symm
  -- the last segment that is left ends in no slash
  obtain ⟨a, c, hc, hlast⟩ : ∃ a c, c ≠ '/' ∧ spelled n kept = a ++ [c] := by
    obtain ⟨s, rest, rfl⟩ := List.exists_cons_of_ne_nil hne
    obtain ⟨hs, hslash⟩ := h.of_mem List.mem_cons_self
    obtain ⟨s, c, rfl⟩ := (List.eq_nil_or_concat' s).resolve_left hs
    obtain ⟨b, hb⟩ := suffix_spelled n (s ++ [c]) rest
    exact ⟨b ++ s, c, fun he => hslash (by simp [he]), by rw [← hb, List.append_assoc]⟩
  rw [spelled_cons hne, folder_append_slash hname ⟨c, by simp [hlast], hc⟩, hlast]
  exact List.rdropWhile_concat_neg _ _ _ (by simpa using hc)

end Folder

section Relative

variable {p q : List Char}

theorem isRelative_iff : isRelative p = true ↔ ∃ w r, p = w ++ '/' :: r ∧ (w = ['.'] ∨ w = ['.', '.']) := by
  rw [isRelative, Bool.or_eq_true, List.isPrefixOf_iff_prefix, List.isPrefixOf_iff_prefix]
  constructor
  · rintro (⟨r, rfl⟩ | ⟨r, rfl⟩)
    · exact ⟨['.'], r, rfl, .inl rfl⟩
    · exact ⟨['.', '.'], r, rfl, .inr rfl⟩
  · rintro ⟨w, r, rfl, rfl | rfl⟩
    · exact .inl ⟨r, rfl⟩
    · exact .inr ⟨r, rfl⟩

/-- Whether a path is relative does not turn on what stands behind a slash. -/
theorem isRelative_slash {a r : List Char} (h : isRelative (a ++ '/' :: r) = true) (r' : List Char) :
    isRelative (a ++ '/' :: r') = true := by
  obtain ⟨w, u, hw, hdots⟩ := isRelative_iff.1 h
  have hslash : '/' ∉ w := by rcases hdots with rfl | rfl <;> decide
  obtain ⟨v, hv, rfl⟩ := cons_of_append_notMem hslash hw
  refine isRelative_iff.2 ?_
  cases v with
  | nil => exact ⟨w, r', by simp, hdots⟩
  | cons c v =>
    obtain ⟨rfl, -⟩ := List.cons.inj hv
    exact ⟨w, v ++ '/' :: r', by simp, hdots⟩

theorem exists_last_slash {s : List Char} (h : '/' ∈ s) : ∃ b t, s = b ++ '/' :: t ∧ '/' ∉ t := by
  obtain ⟨t, b, hs, ht⟩ := List.eq_append_cons_of_mem (List.mem_reverse.2 h)
  refine ⟨b.reverse, t.reverse, List.reverse_injective ?_, mt List.mem_reverse.1 ht⟩
  simpa using hs

/-- A relative path in which a name stands last: its folder, slashes and the name. -/
theorem exists_folder {name : List Char} (hp : isRelative p = true) (h : (splitAt '/' p).getLast? = some name) :
    '/' ∉ name ∧ ∃ n, p = folder p ++ '/' :: (List.replicate n '/' ++ name) := by
  obtain ⟨w, r, hw, hdots⟩ := isRelative_iff.1 hp
  obtain ⟨b, t, rfl, ht⟩ := exists_last_slash (s := p) (by simp [hw])
  obtain rfl : t = name := by simpa [splitAt_append_cons, splitAt_of_notMem ht] using h
  have hdot : '/' ∉ w ∧ '.' ∈ w := by rcases hdots with rfl | rfl <;> decide
  obtain ⟨v, -, hb⟩ := cons_of_append_notMem hdot.1 hw
  have hvisible : '.' ∈ b := hb ▸ List.mem_append_left v hdot.2
  obtain ⟨n, hn⟩ := exists_slashes b
  refine ⟨ht, n, ?_⟩
  rw [folder_append_slash ht ⟨'.', hvisible, by decide⟩]
  calc b ++ '/' :: t = b.rdropWhile (· == '/') ++ (List.replicate n '/' ++ ['/'] ++ t) := by
        conv_lhs => rw [hn]
        simp
    _ = b.rdropWhile (· == '/') ++ '/' :: (List.replicate n '/' ++ t) := by
        rw [← List.replicate_succ', List.replicate_succ, List.cons_append]

/-- Inside a folder the slashes of a relative path are those of the folder. -/
theorem leadingSlashes_inside (f : List Char) (hp : isRelative p = true) :
    leadingSlashes (inside f p) = leadingSlashes f := by
  have hhead : p.takeWhile (· == '/') = [] := by
    obtain ⟨w, r, rfl, rfl | rfl⟩ := isRelative_iff.1 hp <;> rfl
  suffices h : (inside f p).takeWhile (· == '/') = f.takeWhile (· == '/') by
    rw [leadingSlashes, leadingSlashes, h]
  unfold inside
  split
  · rw [List.takeWhile_append, hhead, List.append_nil]
    split
    next h => exact (List.takeWhile_prefix _).eq_of_length h |>.symm
    · rfl
  next h =>
    rw [Bool.or_eq_true, List.isEmpty_iff, beq_iff_eq, not_or] at h
    rw [List.takeWhile_append, if_neg]
    -- a folder of slashes alone ends in one
    intro hall
    have hslashes : ∀ c ∈ f, (c == '/') = true := by
      rw [← (List.takeWhile_prefix _).eq_of_length hall]
      exact fun c hc => List.mem_takeWhile_imp (p := (· == '/')) hc
    refine h.2 ?_
    rw [List.getLast?_eq_some_getLast h.1, beq_iff_eq.1 (hslashes _ (List.getLast_mem h.1))]

theorem isRelative_folder {name : List Char} (hp : isRelative p = true)
    (hlast : (splitAt '/' p).getLast? = some name) (q : List Char) : isRelative (folder p ++ '/' :: q) = true := by
  obtain ⟨-, n, hsplit⟩ := exists_folder hp hlast
  exact isRelative_slash (hsplit ▸ hp) q

variable (i : List Char)

/-- A relative path goes on from the folder of the unit in which it stands. -/
theorem resolve_eq (hp : isRelative p = true) : resolve i p =
    let slashes := leadingSlashes (folder i)
    named slashes (keep (slashes != 0) (keep (slashes != 0) [] (folder i)) p) := by
  rw [resolve, if_pos hp, normal_eq, leadingSlashes_inside (folder i) hp, keep_inside]

theorem isKept_folder (f : List Char) : IsKept rooted (keep rooted [] f) :=
  isKept_keep ⟨[], 0, rfl, fun _ => rfl, nofun⟩ f

variable {name : List Char}

/-- The folder of the unit that is reached: what was kept of the folder of the path. -/
theorem folder_resolve (hp : isRelative p = true) (hlast : (splitAt '/' p).getLast? = some name) (h : IsName name) :
    folder (resolve i p) =
      let slashes := leadingSlashes (folder i)
      spelled slashes (keep (slashes != 0) (keep (slashes != 0) [] (folder i)) (folder p)) := by
  obtain ⟨hname, n, hsplit⟩ := exists_folder hp hlast
  rw [resolve_eq i hp]
  dsimp only
  generalize leadingSlashes (folder i) = slashes
  have hkept : IsKept (slashes != 0) _ := isKept_keep (isKept_folder (folder i)) (folder p)
  conv_lhs => rw [hsplit, keep_append_slash, keep_slashes, keep_name h hname]
  rw [named_cons h.1, folder_spelled hkept hname]

/-- To go on from the unit that a path leads to is to go on along the path. -/
theorem resolve_resolve (hp : isRelative p = true) (hname : EndsInName p) (hq : isRelative q = true) :
    resolve (resolve i p) q = resolve i (folder p ++ '/' :: q) := by
  obtain ⟨name, hlast, h⟩ := hname
  have hfolder := folder_resolve i hp hlast h
  rw [resolve_eq (resolve i p) hq, resolve_eq i (isRelative_folder hp hlast q), hfolder]
  dsimp only
  have hslashes := leadingSlashes_le (folder i)
  generalize leadingSlashes (folder i) = slashes at hslashes ⊢
  have hkept : IsKept (slashes != 0) _ := isKept_keep (isKept_folder (folder i)) (folder p)
  rw [keep_append_slash, spelled, leadingSlashes_slashes (head?_joinWith hkept) hslashes, ← spelled,
    keep_spelled hkept]

end Relative

theorem isNormal_named {n : Nat} (h : IsKept (n != 0) kept) : IsNormal (named n kept) := by
  unfold named
  split
  · exact .inl rfl
  have hsegments := segments_spelled h n
  have hhead := head?_joinWith h
  obtain ⟨names, ups, rfl, hups, hnames⟩ := h
  refine .inr ⟨ups, names.reverse, ?_, fun s hs => (hnames s (List.mem_reverse.1 hs)).1, fun hslash => hups ?_⟩
  · rw [hsegments, List.reverse_append, List.reverse_replicate]
  · -- without slashes before them the segments begin with none
    cases n with
    | succ n => rfl
    | zero =>
      rw [spelled, List.replicate_zero, List.nil_append] at hslash
      rw [hslash] at hhead
      cases hhead

/-- A path along another one: inside its folder. -/
def along (p q : String) : String :=
  String.ofList (folder p.toList) ++ "/" ++ q

theorem along_toList (p q : String) : (along p q).toList = folder p.toList ++ '/' :: q.toList := by
  rw [along, String.toList_append, String.toList_append, String.toList_ofList, List.append_assoc]
  rfl

theorem unitName_unitName (i : String) {p q : String} (hp : isRelative p.toList = true)
    (hname : EndsInName p.toList) (hq : isRelative q.toList = true) :
    unitName (unitName i p) q = unitName i (along p q) := by
  rw [unitName, unitName, unitName, String.toList_ofList, along_toList, resolve_resolve i.toList hp hname hq]

/-- Over any number of units a name is reached along all paths at once. -/
theorem foldl_unitName (i : String) {p : String} {ps : List String}
    (h : ∀ q ∈ p :: ps, isRelative q.toList = true ∧ EndsInName q.toList) :
    ps.foldl unitName (unitName i p) = unitName i (ps.foldl along p) := by
  induction ps generalizing p with
  | nil => rfl
  | cons q ps ih =>
    rw [List.forall_mem_cons, List.forall_mem_cons] at h
    obtain ⟨⟨hp, name, hlast, hname⟩, ⟨hq, name', hlast', hname'⟩, hps⟩ := h
    rw [List.foldl_cons, List.foldl_cons, unitName_unitName i hp ⟨name, hlast, hname⟩ hq]
    refine ih (List.forall_mem_cons.2 ⟨⟨?_, name', ?_, hname'⟩, hps⟩)
    · rw [along_toList]
      exact isRelative_folder hp hlast q.toList
    · rw [along_toList, splitAt_append_cons, List.getLast?_append, hlast']
      rfl

/-- A relative path leads to a normal name, and where it ends in the name of a unit, the paths in that unit lead
where they lead along it. -/
theorem unitName_relative (i : String) {p : String} (hp : isRelative p.toList = true) :
    IsNormal (unitName i p).toList ∧ (EndsInName p.toList → ∀ q, isRelative q.toList = true →
      unitName (unitName i p) q = unitName i (String.ofList (folder p.toList) ++ "/" ++ q)) := by
  refine ⟨?_, fun hname q hq => ?_⟩
  · rw [unitName, String.toList_ofList, resolve_eq i.toList hp]
    exact isNormal_named (isKept_keep (isKept_folder _) _)
  · exact unitName_unitName i hp hname hq

theorem unitName_relative_climb :
    let p := "../b//B.sol"
    let q := "../../C.sol"
    isRelative p.toList = true ∧ EndsInName p.toList ∧ isRelative q.toList = true ∧
      unitName "A.sol" p = "../b/B.sol" ∧ IsNormal "../b/B.sol".toList ∧
      unitName "../b/B.sol" q = unitName "A.sol" "../b/../../C.sol" ∧
      unitName "../b/B.sol" q = "../../C.sol" := by
  intro p q
  have hp : isRelative p.toList = true := by decide
  have hq : isRelative q.toList = true := by decide
  have hname : EndsInName p.toList := ⟨"B.sol".toList, by decide, by unfold IsName; decide⟩
  have hstep : unitName "A.sol" p = "../b/B.sol" := by decide
  have hway : String.ofList (folder p.toList) ++ "/" ++ q = "../b/../../C.sol" := by decide
  obtain ⟨hnormal, hgoes⟩ := unitName_relative "A.sol" hp
  have hgoes := hgoes hname q hq
  rw [hstep, hway] at hgoes
  rw [hstep] at hnormal
  exact ⟨hp, hname, hq, hstep, hnormal, hgoes, by decide⟩

end Solwright.Source
