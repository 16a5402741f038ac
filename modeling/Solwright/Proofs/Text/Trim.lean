import Solwright.Proofs.Text.Scan
import Solwright.Text.Blank

/-! Trimming text around what is not white space. -/

namespace Solwright.Text

/-- Nothing but white space. -/
def IsBlank (s : List Char) : Prop :=
  ∀ c ∈ s, isBlank c = true

theorem IsBlank.append {a b : List Char} (ha : IsBlank a) (hb : IsBlank b) : IsBlank (a ++ b) :=
  fun c hc => (List.mem_append.1 hc).elim (ha c) (hb c)

theorem IsBlank.left {a b : List Char} (h : IsBlank (a ++ b)) : IsBlank a :=
  fun c hc => h c (List.mem_append_left b hc)

theorem IsBlank.right {a b : List Char} (h : IsBlank (a ++ b)) : IsBlank b :=
  fun c hc => h c (List.mem_append_right a hc)

theorem exists_of_not_isBlank {s : List Char} (h : ¬IsBlank s) : ∃ c ∈ s, isBlank c = false := by
  simpa [IsBlank] using h

theorem dropWhile_append_of_exists {p : Char → Bool} {a b : List Char} (h : ∃ c ∈ a, p c = false) :
    ∃ c a', (a ++ b).dropWhile p = c :: a' ++ b ∧ p c = false ∧ (c :: a') <:+ a := by
  have hhead := head?_dropWhile_any p a
  have hsuffix := a.dropWhile_suffix p
  rw [dropWhile_append_of_mem h]
  obtain ⟨d, hd, hp⟩ := h
  obtain ⟨c, a', hdrop⟩ := List.exists_cons_of_ne_nil (List.ne_nil_of_mem (mem_dropWhile hd hp))
  rw [hdrop] at hhead hsuffix ⊢
  exact ⟨c, a', rfl, hhead, hsuffix⟩

/-- Trimming goes up to the first and the last character that is not white space. -/
theorem trim_append {a m b : List Char} (ha : IsBlank a) (hb : IsBlank b) {c d : Char}
    (hc : isBlank c = false) (hd : isBlank d = false) :
    trim (a ++ (c :: (m ++ d :: b))) = c :: (m ++ [d]) := by
  have hleft : (a ++ (c :: (m ++ d :: b))).dropWhile isBlank = c :: (m ++ d :: b) := by
    rw [List.dropWhile_append_of_pos ha, List.dropWhile_cons_of_neg (by simp [hc])]
  have hright : (c :: (m ++ d :: b)).reverse.dropWhile isBlank = (c :: (m ++ [d])).reverse := by
    have hsplit : (c :: (m ++ d :: b)).reverse = b.reverse ++ (d :: (c :: m).reverse) := by simp
    rw [hsplit, List.dropWhile_append_of_pos fun e he => hb e (List.mem_reverse.1 he),
      List.dropWhile_cons_of_neg (by simp [hd])]
    simp
  rw [trim, trimBy, hleft, hright, List.reverse_reverse]

/-- What is left of a text that is not only white space after another one. -/
theorem trim_append_of_exists {a m b : List Char} (ha : IsBlank a) (hb : ∃ e ∈ b, isBlank e = false)
    {c : Char} (hc : isBlank c = false) :
    ∃ b', trim (a ++ (c :: (m ++ b))) = c :: (m ++ b') ∧ ∃ e ∈ b', isBlank e = false := by
  have hleft : (a ++ (c :: (m ++ b))).dropWhile isBlank = c :: (m ++ b) := by
    rw [List.dropWhile_append_of_pos ha, List.dropWhile_cons_of_neg (by simp [hc])]
  have hrev : ∃ e ∈ b.reverse, isBlank e = false := by simpa using hb
  obtain ⟨e, b', hdrop, he, -⟩ := dropWhile_append_of_exists (b := (c :: m).reverse) hrev
  refine ⟨(e :: b').reverse, ?_, e, by simp, he⟩
  have hsplit : (c :: (m ++ b)).reverse = b.reverse ++ (c :: m).reverse := by simp
  rw [trim, trimBy, hleft, hsplit, hdrop]
  simp

/-- A trimmed text begins with the first character that is not white space. -/
theorem trim_head {a b : List Char} (ha : ∃ c ∈ a, isBlank c = false) :
    ∃ c s, trim (a ++ b) = c :: s ∧ isBlank c = false ∧ c ∈ a := by
  obtain ⟨c, a', hdrop, hc, hsuf⟩ := dropWhile_append_of_exists (b := b) ha
  have hrev : ∃ e ∈ (c :: a' ++ b).reverse, isBlank e = false := ⟨c, by simp, hc⟩
  have hlast : ∃ s, trim (a ++ b) = c :: s := by
    have hsplit : (c :: a' ++ b).reverse = (a' ++ b).reverse ++ [c] := by simp
    rw [trim, trimBy, hdrop, hsplit, List.dropWhile_append]
    split
    · exact ⟨[], by rw [List.dropWhile_cons_of_neg (by simp [hc])]; rfl⟩
    · exact ⟨_, by rw [List.reverse_append]; rfl⟩
  obtain ⟨s, hs⟩ := hlast
  exact ⟨c, s, hs, hc, hsuf.subset List.mem_cons_self⟩

theorem trim_sublist (s : List Char) : (trim s).Sublist s := by
  have hright := (List.dropWhile_suffix (l := (s.dropWhile isBlank).reverse) isBlank).sublist.reverse
  rw [List.reverse_reverse] at hright
  exact hright.trans (s.dropWhile_suffix isBlank).sublist

/-- Trimming takes white space only. -/
theorem mem_trim {s : List Char} {c : Char} (hc : c ∈ s) (hblank : isBlank c = false) : c ∈ trim s := by
  have hleft : c ∈ (s.dropWhile isBlank).reverse := List.mem_reverse.2 (mem_dropWhile hc hblank)
  exact List.mem_reverse.2 (mem_dropWhile hleft hblank)

theorem trim_isInfix (s : List Char) : trim s <:+: s := by
  have hright := (List.dropWhile_suffix (l := (s.dropWhile isBlank).reverse) isBlank).reverse
  rw [List.reverse_reverse] at hright
  exact hright.isInfix.trans (s.dropWhile_suffix isBlank).isInfix

/-- A trimmed text has no white space at its ends. -/
theorem visible_ends_trim (s : List Char) :
    (trim s).head?.any isBlank = false ∧ (trim s).getLast?.any isBlank = false := by
  have hlast : (trim s).getLast?.any isBlank = false := by
    rw [trim, trimBy, List.getLast?_reverse]
    exact head?_dropWhile_any isBlank _
  refine ⟨?_, hlast⟩
  cases hs : trim s with
  | nil => rfl
  | cons c t =>
    -- what is left begins with the first character after the white space in front
    have hfront : trim s <+: s.dropWhile isBlank := by
      have hsuffix := List.dropWhile_suffix (l := (s.dropWhile isBlank).reverse) isBlank
      simpa [trim, trimBy] using List.reverse_prefix.2 hsuffix
    obtain ⟨r, hr⟩ := hs ▸ hfront
    have hhead := head?_dropWhile_any isBlank s
    rwa [← hr] at hhead

theorem trimBy_of_ends {p : Char → Bool} {s : List Char} (hhead : s.head?.any p = false)
    (hlast : s.getLast?.any p = false) : trimBy p s = s := by
  have hreverse : s.reverse.head?.any p = false := by rwa [List.head?_reverse]
  rw [trimBy, dropWhile_of_head hhead, dropWhile_of_head hreverse, List.reverse_reverse]

theorem trim_of_visible_ends {s : List Char} (hhead : s.head?.any isBlank = false)
    (hlast : s.getLast?.any isBlank = false) : trim s = s :=
  trimBy_of_ends hhead hlast

/-- White space behind a text is trimmed with what the text ends with. -/
theorem trim_append_of_isBlank (a : List Char) {b : List Char} (hb : IsBlank b) :
    trim (a ++ b) = trim a := by
  have hrev : ∀ c ∈ b.reverse, isBlank c = true := fun c hc => hb c (List.mem_reverse.1 hc)
  rw [trim, trimBy, trim, trimBy, List.dropWhile_append]
  split
  next ha =>
    rw [List.isEmpty_iff.1 ha, List.dropWhile_eq_nil_iff.2 hb]
  next =>
    rw [List.reverse_append, List.dropWhile_append_of_pos hrev]

/-- White space in front of a text is trimmed with what the text begins with. -/
theorem trim_append_of_isBlank_left {a : List Char} (ha : IsBlank a) (b : List Char) :
    trim (a ++ b) = trim b := by
  rw [trim, trimBy, List.dropWhile_append_of_pos ha]
  rfl

/-- Trimming leaves what stands between white space and has none. -/
theorem trim_around {a w b : List Char} (ha : IsBlank a) (hb : IsBlank b)
    (hw : ∀ c ∈ w, isBlank c = false) : trim (a ++ w ++ b) = w := by
  rw [List.append_assoc, trim_append_of_isBlank_left ha, trim_append_of_isBlank w hb]
  apply trim_of_visible_ends
  · cases hhead : w.head? with
    | none => rfl
    | some c => exact hw c (List.mem_of_head? hhead)
  · cases hlast : w.getLast? with
    | none => rfl
    | some c => exact hw c (List.mem_of_getLast? hlast)

/-- Trimming keeps the text in front up to its last character that is not white space. -/
theorem trim_append_of_visible {a : List Char} (hne : a ≠ []) (ha : ∀ c ∈ a, isBlank c = false)
    (b : List Char) : ∃ b', b' <+: b ∧ trim (a ++ b) = a ++ b' := by
  obtain ⟨c, a', rfl⟩ := List.exists_cons_of_ne_nil hne
  have hleft : (c :: a' ++ b).dropWhile isBlank = c :: a' ++ b :=
    List.dropWhile_cons_of_neg (by simp [ha c List.mem_cons_self])
  have hvisible : ∀ r : List Char, (r ++ (c :: a').reverse).dropWhile isBlank =
      r.dropWhile isBlank ++ (c :: a').reverse := by
    intro r
    rw [List.dropWhile_append]
    split
    next hr =>
      obtain ⟨d, u, hu⟩ := List.exists_cons_of_ne_nil (List.reverse_ne_nil_iff.2 hne)
      have hd : d ∈ c :: a' := List.mem_reverse.1 (hu ▸ List.mem_cons_self)
      rw [List.isEmpty_iff.1 hr, hu, List.dropWhile_cons_of_neg (by simp [ha d hd])]
      rfl
    next => rfl
  refine ⟨(b.reverse.dropWhile isBlank).reverse, ?_, ?_⟩
  · have hsuffix := List.reverse_prefix.2 (b.reverse.dropWhile_suffix isBlank)
    rwa [List.reverse_reverse] at hsuffix
  · rw [trim, trimBy, hleft, List.reverse_append, hvisible, List.reverse_append, List.reverse_reverse]

end Solwright.Text
