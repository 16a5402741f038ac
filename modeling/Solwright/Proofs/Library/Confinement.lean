import Mathlib.Data.Set.Finite.Basic
import Solwright.Library.Catalog
import Solwright.Proofs.Text.Join

/-! What the known beginnings of paths confine. A path that does not climb out of its beginning leads
inside it. Only the text of a path is held against the beginnings, though, and only the root against the
place that the path leads to, so by climbing every file below the root can be had. -/

namespace Solwright

namespace Catalog

open Text

/-- The text that leads on through segments. -/
def way (segments : List (List Char)) : List Char :=
  segments.flatMap fun s => '/' :: s

theorem splitAt_way {segments : List (List Char)} (h : ∀ s ∈ segments, '/' ∉ s) (a : List Char) :
    splitAt '/' (a ++ way segments) = splitAt '/' a ++ segments := by
  induction segments generalizing a with
  | nil => simp [way]
  | cons s segments ih =>
    have hs : splitAt '/' (s ++ way segments) = s :: segments := by
      rw [ih (fun t ht => h t (List.mem_cons_of_mem s ht)), splitAt_of_notMem (h s List.mem_cons_self)]
      rfl
    have hway : a ++ way (s :: segments) = a ++ '/' :: (s ++ way segments) := rfl
    rw [hway, splitAt_append_cons, hs]

/-- A segment that leads down. -/
def IsName (s : List Char) : Prop := s ≠ [] ∧ s ≠ ['.'] ∧ s ≠ ['.', '.']

theorem descend_of_isName {s : List Char} (h : IsName s) (kept : List (List Char)) :
    descend kept s = s :: kept := by
  unfold descend
  rw [if_neg (by simp [h.1, h.2.1]), if_neg (by simp [h.2.2])]

/-- The name of a file or folder. -/
structure IsSegment (s : List Char) : Prop where
  name : IsName s
  whole : '/' ∉ s
  noNull : Char.ofNat 0 ∉ s

theorem foldl_descend_names {segments : List (List Char)} (h : ∀ s ∈ segments, IsName s)
    (kept : List (List Char)) : segments.foldl descend kept = segments.reverse ++ kept := by
  induction segments generalizing kept with
  | nil => rfl
  | cons s segments ih =>
    rw [List.foldl_cons, descend_of_isName (h s List.mem_cons_self),
      ih fun t ht => h t (List.mem_cons_of_mem s ht)]
    simp

theorem foldl_descend_here (n : Nat) (kept : List (List Char)) :
    (List.replicate n ['.']).foldl descend kept = kept := by
  induction n with
  | zero => rfl
  | succ n ih => exact ih

theorem foldl_descend_up (n : Nat) (kept : List (List Char)) :
    (List.replicate n ['.', '.']).foldl descend kept = kept.drop n := by
  induction n generalizing kept with
  | zero => rfl
  | succ n ih =>
    rw [List.replicate_succ, List.foldl_cons, ih, Nat.add_comm, ← List.drop_drop]
    rfl

/-- The segments of a path are taken one after the other, from the top or from the folder. -/
theorem locate_cases (root : List (List Char)) (path : List Char) : ∃ start,
    (start = [] ∨ start = root.reverse) ∧
      locate root path = ((splitAt '/' path).foldl descend start).reverse := by
  unfold locate
  split
  · exact ⟨[], .inl rfl, rfl⟩
  · exact ⟨root.reverse, .inr rfl, rfl⟩

theorem length_way_here (n : Nat) (segments : List (List Char)) :
    (way (List.replicate n ['.'] ++ segments)).length = 2 * n + (way segments).length := by
  induction n with
  | zero => simp
  | succ n ih =>
    have hway : way (List.replicate (n + 1) ['.'] ++ segments) =
        '/' :: '.' :: way (List.replicate n ['.'] ++ segments) := rfl
    rw [hway, List.length_cons, List.length_cons, ih]
    omega

theorem notMem_way {segments : List (List Char)} {c : Char} (hc : c ≠ '/') (h : ∀ s ∈ segments, c ∉ s) :
    c ∉ way segments := by
  intro hm
  obtain ⟨s, hs, hcs⟩ := List.mem_flatMap.1 hm
  rcases List.mem_cons.1 hcs with rfl | hcs
  · exact hc rfl
  · exact h s hs hcs

/-- A path that stays where it is a number of times and then climbs to the top leads to any place. -/
theorem exists_way (root : List (List Char)) (b : List Char) {place : List (List Char)}
    (h : ∀ s ∈ place, IsSegment s) : ∃ ups, ∀ n, locate root
      (b ++ way (List.replicate n ['.'] ++ (List.replicate ups ['.', '.'] ++ place))) = place := by
  let stack (start : List (List Char)) := (splitAt '/' b).foldl descend start
  refine ⟨(stack []).length + (stack root.reverse).length, fun n => ?_⟩
  have hwhole : ∀ s ∈ List.replicate n ['.'] ++
      (List.replicate ((stack []).length + (stack root.reverse).length) ['.', '.'] ++ place), '/' ∉ s := by
    intro s hs
    rcases List.mem_append.1 hs with hs | hs
    · rw [List.eq_of_mem_replicate hs]
      decide
    rcases List.mem_append.1 hs with hs | hs
    · rw [List.eq_of_mem_replicate hs]
      decide
    · exact (h s hs).whole
  have hfold : ∀ start, start = [] ∨ start = root.reverse →
      (stack start).drop ((stack []).length + (stack root.reverse).length) = [] := by
    rintro start (rfl | rfl)
    · exact List.drop_eq_nil_of_le (by omega)
    · exact List.drop_eq_nil_of_le (by omega)
  obtain ⟨start, hstart, hlocate⟩ := locate_cases root (b ++ way (List.replicate n ['.'] ++
    (List.replicate ((stack []).length + (stack root.reverse).length) ['.', '.'] ++ place)))
  rw [hlocate, splitAt_way hwhole, List.foldl_append, List.foldl_append, List.foldl_append,
    foldl_descend_here, foldl_descend_up, foldl_descend_names fun s hs => (h s hs).name, hfold start hstart]
  simp

/-- Infinitely many paths with a beginning lead to a place, so that one of them is not held in memory. -/
theorem exists_path (c : Catalog) (root : List (List Char)) {b : String}
    (hnull : Char.ofNat 0 ∉ b.toList) {place : List (List Char)} (h : ∀ s ∈ place, IsSegment s) :
    ∃ path : String, b.toList <+: path.toList ∧ c.sources.lookup (.formed path) = none ∧
      Char.ofNat 0 ∉ path.toList ∧ locate root path.toList = place := by
  obtain ⟨ups, hups⟩ := exists_way root b.toList h
  let path (n : Nat) := String.ofList
    (b.toList ++ way (List.replicate n ['.'] ++ (List.replicate ups ['.', '.'] ++ place)))
  have hinj : Function.Injective fun n => RawText.formed (path n) := by
    intro n m hnm
    have hlength := congrArg String.toList (RawText.formed.inj hnm)
    rw [String.toList_ofList, String.toList_ofList] at hlength
    have hlength := congrArg List.length hlength
    rw [List.length_append, List.length_append, length_way_here, length_way_here] at hlength
    omega
  obtain ⟨-, ⟨n, rfl⟩, hn⟩ := (Set.infinite_range_of_injective hinj).exists_notMem_finset
    (c.sources.map (·.1)).toFinset
  refine ⟨path n, ?_, ?_, ?_, ?_⟩
  · rw [String.toList_ofList]
    exact List.prefix_append _ _
  · refine List.lookup_eq_none_iff.2 fun p hp => ?_
    refine bne_iff_ne.2 fun he => hn ?_
    change RawText.formed (path n) ∈ _
    rw [he]
    exact List.mem_toFinset.2 (List.mem_map_of_mem hp)
  · rw [String.toList_ofList, List.mem_append, not_or]
    refine ⟨hnull, notMem_way (by decide) fun s hs => ?_⟩
    rcases List.mem_append.1 hs with hs | hs
    · rw [List.eq_of_mem_replicate hs]
      decide
    rcases List.mem_append.1 hs with hs | hs
    · rw [List.eq_of_mem_replicate hs]
      decide
    · exact (h s hs).noNull
  · rw [String.toList_ofList]
    exact hups n

/-- How far below where they begin segments lead, unless they climb out of it. -/
def depth : Nat → List (List Char) → Option Nat
  | d, [] => some d
  | d, s :: segments =>
    if s.isEmpty || s == ['.'] then depth d segments
    else if s == ['.', '.'] then
      match d with
      | 0 => none
      | d + 1 => depth d segments
    else depth (d + 1) segments

/-- What follows a beginning does not climb out of it: it does not climb at all, or the beginning is a
folder and it never climbs further than it has come down. -/
inductive StaysIn (b : List Char) : List Char → Prop
  | plain {down : List Char} : (∀ s ∈ splitAt '/' (b ++ down), s ≠ ['.', '.']) → StaysIn b down
  | folder {down : List Char} {d : Nat} : b.getLast? = some '/' →
      depth 0 (splitAt '/' down) = some d → StaysIn b down

/-- A place that is reached from the root by a path with a beginning and without climbing. -/
def IsInside (root : List (List Char)) (b : List Char) (place : List (List Char)) : Prop :=
  ∃ down, (∀ s ∈ splitAt '/' (b ++ down), s ≠ ['.', '.']) ∧ locate root (b ++ down) = place

/-- Segments that do not climb out of where they begin leave what was kept there and put names on it. -/
theorem foldl_descend_depth {segments : List (List Char)} (kept base : List (List Char)) {d : Nat}
    (h : depth kept.length segments = some d) : ∃ kept',
      segments.foldl descend (kept ++ base) = kept' ++ base ∧
        ∀ s ∈ kept', s ∈ kept ∨ s ∈ segments ∧ IsName s := by
  induction segments generalizing kept with
  | nil => exact ⟨kept, rfl, fun s hs => .inl hs⟩
  | cons s segments ih =>
    unfold depth at h
    split at h
    next hskip =>
      obtain ⟨kept', hfold, hnames⟩ := ih kept h
      refine ⟨kept', ?_, fun t ht => (hnames t ht).imp_right fun ht => ⟨List.mem_cons_of_mem s ht.1, ht.2⟩⟩
      rw [List.foldl_cons, descend, if_pos hskip, hfold]
    next hskip =>
      split at h
      next hup =>
        cases kept with
        | nil => cases h
        | cons k kept =>
          obtain ⟨kept', hfold, hnames⟩ := ih kept h
          refine ⟨kept', ?_, fun t ht => (hnames t ht).imp (List.mem_cons_of_mem k) fun ht =>
            ⟨List.mem_cons_of_mem s ht.1, ht.2⟩⟩
          rw [List.foldl_cons, descend, if_neg hskip, if_pos hup]
          exact hfold
      next hup =>
        have hname : IsName s := by
          simp only [Bool.or_eq_true, List.isEmpty_iff, beq_iff_eq, not_or] at hskip hup
          exact ⟨hskip.1, hskip.2, hup⟩
        obtain ⟨kept', hfold, hnames⟩ := ih (s :: kept) h
        refine ⟨kept', ?_, fun t ht => ?_⟩
        · rw [List.foldl_cons, descend_of_isName hname]
          exact hfold
        · rcases hnames t ht with ht | ht
          · rcases List.mem_cons.1 ht with rfl | ht
            · exact .inr ⟨List.mem_cons_self, hname⟩
            · exact .inl ht
          · exact .inr ⟨List.mem_cons_of_mem s ht.1, ht.2⟩

/-- What follows a folder is taken from where the folder is. -/
theorem locate_folder (root : List (List Char)) (b : List Char) : ∃ base, ∀ down,
    locate root (b ++ ['/'] ++ down) = ((splitAt '/' down).foldl descend base).reverse := by
  refine ⟨(splitAt '/' b).foldl descend (if (b ++ ['/']).head? == some '/' then [] else root.reverse),
    fun down => ?_⟩
  have hhead : (b ++ ['/'] ++ down).head? = (b ++ ['/']).head? := by cases b <;> rfl
  have hsplit : splitAt '/' (b ++ ['/'] ++ down) = splitAt '/' b ++ splitAt '/' down := by
    rw [List.append_assoc]
    exact splitAt_append_cons b down
  unfold locate
  rw [hhead, hsplit]
  exact congrArg List.reverse (List.foldl_append ..)

/-- Names as the text of a path that only leads down. -/
theorem exists_names (segments : List (List Char)) (h : ∀ s ∈ segments, IsName s ∧ '/' ∉ s) :
    ∃ down, (∀ s ∈ splitAt '/' down, s ≠ ['.', '.']) ∧
      ∀ base, (splitAt '/' down).foldl descend base = segments.reverse ++ base := by
  cases segments with
  | nil => exact ⟨[], by simp [splitAt], fun base => rfl⟩
  | cons s segments =>
    have hwhole : ∀ t ∈ segments, '/' ∉ t := fun t ht => (h t (List.mem_cons_of_mem s ht)).2
    have hsplit : splitAt '/' (s ++ way segments) = s :: segments := by
      rw [splitAt_way hwhole, splitAt_of_notMem (h s List.mem_cons_self).2]
      rfl
    refine ⟨s ++ way segments, fun t ht => ?_, fun base => ?_⟩
    · rw [hsplit] at ht
      exact (h t ht).1.2.2
    · rw [hsplit, foldl_descend_names fun t ht => (h t ht).1]

/-- A path that does not climb out of its beginning leads inside it. -/
theorem StaysIn.isInside (root : List (List Char)) {b down : List Char} (h : StaysIn b down)
    (hb : ∀ s ∈ splitAt '/' b, s ≠ ['.', '.']) : IsInside root b (locate root (b ++ down)) := by
  cases h with
  | plain hplain => exact ⟨down, hplain, rfl⟩
  | @folder d hfolder hdepth =>
    obtain ⟨b, rfl⟩ := List.getLast?_eq_some_iff.1 hfolder
    obtain ⟨base, hbase⟩ := locate_folder root b
    obtain ⟨names, hfold, hnames⟩ := foldl_descend_depth [] base hdepth
    have hnames : ∀ s ∈ names.reverse, s ∈ splitAt '/' down ∧ IsName s := fun s hs =>
      (hnames s (List.mem_reverse.1 hs)).resolve_left nofun
    obtain ⟨down', hdown', hfold'⟩ := exists_names names.reverse fun s hs =>
      ⟨(hnames s hs).2, notMem_of_mem_splitAt (hnames s hs).1⟩
    refine ⟨down', ?_, ?_⟩
    · intro s hs
      rw [List.append_assoc, List.singleton_append, splitAt_append_cons] at hs
      rcases List.mem_append.1 hs with hs | hs
      · exact hb s (by rw [splitAt_append_cons]; exact List.mem_append_left _ hs)
      · exact hdown' s hs
    · rw [hbase, hbase, hfold', List.reverse_reverse, ← hfold]
      rfl

theorem depth_of_plain {segments : List (List Char)} (h : ∀ s ∈ segments, s ≠ ['.', '.']) (d : Nat) :
    ∃ e, depth d segments = some e := by
  induction segments generalizing d with
  | nil => exact ⟨d, rfl⟩
  | cons s segments ih =>
    have hup : (s == ['.', '.']) = false := beq_eq_false_iff_ne.2 (h s List.mem_cons_self)
    have ih := ih fun t ht => h t (List.mem_cons_of_mem s ht)
    unfold depth
    rw [hup]
    split
    · exact ih d
    · exact ih (d + 1)

/-- What is inside a folder is below it. -/
theorem IsInside.below {root place : List (List Char)} {b : List Char} (h : IsInside root b place)
    (hb : b.getLast? = some '/') : locate root b <+: place := by
  obtain ⟨down, hplain, rfl⟩ := h
  obtain ⟨b, rfl⟩ := List.getLast?_eq_some_iff.1 hb
  obtain ⟨base, hbase⟩ := locate_folder root b
  have hdown : ∀ s ∈ splitAt '/' down, s ≠ ['.', '.'] := by
    intro s hs
    refine hplain s ?_
    rw [List.append_assoc, List.singleton_append, splitAt_append_cons]
    exact List.mem_append_right _ hs
  obtain ⟨e, he⟩ := depth_of_plain hdown 0
  obtain ⟨names, hfold, -⟩ := foldl_descend_depth [] base he
  have hfolder := hbase []
  rw [List.append_nil] at hfolder
  rw [hbase, hfolder]
  rw [List.nil_append] at hfold
  rw [hfold, List.reverse_append]
  exact List.prefix_append _ _

theorem isBelow_iff {root place : List (List Char)} :
    (root.isPrefixOf place && root.length < place.length) = true ↔ root <+: place ∧ root ≠ place := by
  rw [Bool.and_eq_true, List.isPrefixOf_iff_prefix, decide_eq_true_eq]
  refine and_congr_right fun hbelow => ⟨fun hlt he => ?_, fun hne => ?_⟩
  · rw [he] at hlt
    exact Nat.lt_irrefl _ hlt
  · exact Nat.lt_of_le_of_ne hbelow.length_le fun he => hne (hbelow.eq_of_length he)

theorem fileAt_eq_ok {c : Catalog} {place : List (List Char)} {found : Option (List Char)}
    (h : c.fileAt place = .ok found) : c.files.lookup place = found := by
  unfold fileAt at h
  split at h
  · cases h
  · exact Except.ok.inj h

theorem fileBelow_eq_ok {c : Catalog} {root : List (List Char)} {path raw : List Char}
    (h : c.fileBelow root path = .ok (some raw)) : root <+: locate root path ∧ root ≠ locate root path ∧
      c.files.lookup (locate root path) = some raw := by
  unfold fileBelow at h
  dsimp only at h
  split at h
  next hbelow =>
    obtain ⟨hbelow, hne⟩ := isBelow_iff.1 hbelow
    exact ⟨hbelow, hne, fileAt_eq_ok h⟩
  next => cases h

theorem file_formed {c : Catalog} {root : List (List Char)} {path : String} (hroot : c.root = some root)
    (hnull : Char.ofNat 0 ∉ path.toList) : c.file (.formed path) = c.fileBelow root path.toList := by
  have hpath : badPath? (.formed path) = none := if_neg (by simpa using hnull)
  unfold file
  rw [hroot, hpath]
  cases h : c.fileBelow root path.toList <;> simp [pathChars, h, RawText.isFormed, Except.map]

/-- The file that a path leads to. -/
theorem file_eq_ok {c : Catalog} {path : RawText} {raw : List Char} (h : c.file path = .ok (some raw)) :
    ∃ spelled root, path = .formed spelled ∧ c.root = some root ∧ root <+: locate root spelled.toList ∧
      root ≠ locate root spelled.toList ∧ c.files.lookup (locate root spelled.toList) = some raw := by
  unfold file at h
  split at h
  · cases h
  · cases h
  next root hroot _ =>
    cases path with
    | formed spelled =>
      refine ⟨spelled, root, rfl, hroot, fileBelow_eq_ok ?_⟩
      cases hfile : c.fileBelow root spelled.toList with
      | error f => simp [pathChars, hfile, Except.map] at h
      | ok found => simpa [pathChars, hfile, Except.map, RawText.isFormed] using h
    | illFormed ns =>
      cases hfile : c.fileBelow root (pathChars (.illFormed ns)) <;>
        simp [hfile, Except.map, RawText.isFormed] at h

theorem knows_iff {c : Catalog} {path : RawText} :
    c.knows path = true ↔ ∃ b ∈ c.beginnings, (RawText.formed b).codes <+: path.codes := by
  simp [knows, List.any_eq_true, RawText.codes]

theorem knows_formed {c : Catalog} {path : String} :
    c.knows (.formed path) = true ↔ ∃ b ∈ c.beginnings, b.toList <+: path.toList := by
  rw [knows_iff]
  exact exists_congr fun b => and_congr_right fun _ =>
    List.prefix_map_iff_of_injective fun _ _ => Char.toNat_inj.1

theorem find_of_find? {c : Catalog} {n t : RawText} (h : c.find? n = some t) : c.find n = .ok (some t) := by
  unfold find? at h
  split at h
  next hfound => rw [hfound, h]
  next => cases h

/-- A source that is found is held in memory under its path, or it is the file that the path leads to. -/
theorem find_eq_ok {c : Catalog} {path text : RawText} (h : c.find path = .ok (some text)) :
    c.knows path = true ∧ (c.sources.lookup path = some text ∨
      ∃ raw, c.file path = .ok (some raw) ∧ text = .formed (String.ofList (universalLines raw))) := by
  unfold find at h
  split at h
  · cases h
  next hknown =>
    refine ⟨by simpa using hknown, ?_⟩
    split at h
    next hmemory =>
      cases h
      exact .inl hmemory
    next =>
      cases hfile : c.file path with
      | error f =>
        rw [hfile] at h
        cases h
      | ok found =>
        rw [hfile] at h
        cases found with
        | none => cases h
        | some raw =>
          cases h
          exact .inr ⟨raw, rfl, rfl⟩

/-- A known path that is not held in memory and leads below the root finds what is there. -/
theorem find_of_locate {c : Catalog} {path : String} {root : List (List Char)} {raw : List Char}
    (hknown : c.knows path = true) (hmemory : c.sources.lookup (.formed path) = none) (hroot : c.root = some root)
    (hnull : Char.ofNat 0 ∉ path.toList) (hbelow : root <+: locate root path.toList)
    (hne : root ≠ locate root path.toList) (hfile : c.fileAt (locate root path.toList) = .ok (some raw)) :
    c.find path = .ok (some (String.ofList (universalLines raw))) := by
  have hpath : c.file path = .ok (some raw) := by
    rw [file_formed hroot hnull, fileBelow, if_pos (isBelow_iff.2 ⟨hbelow, hne⟩)]
    exact hfile
  unfold find
  rw [hknown, hmemory, hpath]
  rfl

/-- What is found is a file below the root, and one inside the beginning of its path unless the path
climbs out of that. Any file below the root can be had in this way. -/
theorem find_reaches (c : Catalog) :
    (∀ path text, c.find path = .ok (some text) → c.knows path = true ∧
      (c.sources.lookup path = some text ∨ ∃ spelled root place raw, path = .formed spelled ∧
        c.root = some root ∧ root <+: place ∧ root ≠ place ∧ c.files.lookup place = some raw ∧
        text = .formed (String.ofList (universalLines raw)) ∧
        ∀ b ∈ c.beginnings, (∀ s ∈ splitAt '/' b.toList, s ≠ ['.', '.']) → ∀ down,
          spelled.toList = b.toList ++ down → StaysIn b.toList down →
          IsInside root b.toList place ∧ (b.toList.getLast? = some '/' → locate root b.toList <+: place))) ∧
    ∀ root place raw, ∀ b ∈ c.beginnings, c.root = some root → root <+: place → root ≠ place →
      (∀ s ∈ place, IsSegment s) → c.fileAt place = .ok (some raw) → Char.ofNat 0 ∉ b.toList →
      ∃ path : String, b.toList <+: path.toList ∧
        c.find path = .ok (some (String.ofList (universalLines raw))) := by
  constructor
  · intro path text h
    obtain ⟨hknown, hmemory | ⟨raw, hfile, htext⟩⟩ := find_eq_ok h
    · exact ⟨hknown, .inl hmemory⟩
    · obtain ⟨spelled, root, hspelled, hroot, hbelow, hne, hraw⟩ := file_eq_ok hfile
      refine ⟨hknown, .inr ⟨spelled, root, _, raw, hspelled, hroot, hbelow, hne, hraw, htext, ?_⟩⟩
      intro b hb hplain down hpath hstays
      have hinside := hstays.isInside root hplain
      rw [← hpath] at hinside
      exact ⟨hinside, hinside.below⟩
  · intro root place raw b hb hroot hbelow hne hplace hfile hnull
    obtain ⟨path, hbegins, hmemory, hnull, rfl⟩ := exists_path c root hnull hplace
    refine ⟨path, hbegins, ?_⟩
    have hknown : c.knows path = true := knows_formed.2 ⟨b, hb, hbegins⟩
    exact find_of_locate hknown hmemory hroot hnull hbelow hne hfile

theorem find_reaches_secret :
    let root := ["lib".toList]
    let known := root ++ ["@openzeppelin".toList, "contracts".toList]
    let c : Catalog :=
      { root := some root, files := [(known ++ ["A.sol".toList], ['A']), (root ++ ["B.sol".toList], ['B'])] }
    (∃ place raw, c.files.lookup place = some raw ∧ "A" = String.ofList (universalLines raw) ∧
      known <+: place) ∧
      (∃ path : String, "@openzeppelin/contracts/".toList <+: path.toList ∧ c.find path = .ok (some "B")) ∧
      c.find "@openzeppelin/contracts/../../B.sol" = .ok (some "B") := by
  intro root known c
  obtain ⟨hfound, hclimb⟩ := find_reaches c
  refine ⟨?_, ?_, rfl⟩
  · have hA : c.find "@openzeppelin/contracts/b/../A.sol" = .ok (some "A") := rfl
    obtain ⟨-, hmemory | ⟨spelled, r, place, raw, hspelled, hroot, -, -, hraw, htext, hinside⟩⟩ := hfound _ _ hA
    · cases hmemory
    cases hspelled
    obtain ⟨-, hbelow⟩ := hinside "@openzeppelin/contracts/" (by decide) (by decide) "b/../A.sol".toList rfl
      (.folder rfl (d := 1) rfl)
    cases hroot
    exact ⟨place, raw, hraw, RawText.formed.inj htext, hbelow rfl⟩
  · have hplace : ∀ s ∈ root ++ ["B.sol".toList], IsSegment s := by
      intro s hs
      rcases List.mem_pair.1 hs with rfl | rfl
      · exact ⟨by unfold IsName; decide, by decide, by decide⟩
      · exact ⟨by unfold IsName; decide, by decide, by decide⟩
    obtain ⟨path, hbegins, hpath⟩ := hclimb root (root ++ ["B.sol".toList]) ['B'] "@openzeppelin/contracts/"
      (by decide) rfl (by decide) (by decide) hplace rfl (by decide)
    exact ⟨path, hbegins, hpath⟩

end Catalog

end Solwright
