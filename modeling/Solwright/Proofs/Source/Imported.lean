import Solwright.Fragment
import Solwright.Proofs.Text.Anchored
import Solwright.Source.Import

/-! Where a source imports others. An import begins a line, has a quote in it and is read up to its
semicolon, so lines that begin otherwise are passed over, and so is a text without quotes. -/

namespace Solwright.Source

open Solwright.Text

theorem import?_of_inside {before : Option Char} (h : atLineStart before = false)
    (s : List Char) : import? before s = none := by
  rw [import?, h, if_neg Bool.false_ne_true]

theorem suffix_of_quotedPath? {s path rest : List Char} (h : quotedPath? s = some (path, rest)) :
    rest <:+ s := by
  cases s with
  | nil => cases h
  | cons q s =>
    rw [quotedPath?] at h
    split at h
    next =>
      cases h
      exact (List.drop_suffix 1 _).trans ((List.dropWhile_suffix _).trans (List.suffix_cons q s))
    next => cases h

/-- What the scan takes for an import begins, white space apart, with the word and more white space. -/
theorem import?_eq_some {before : Option Char} {s path rest : List Char}
    (h : import? before s = some (path, rest)) : atLineStart before = true ∧
      ∃ c later, isBlank c = true ∧ s.dropWhile isBlank = "import".toList ++ c :: (later ++ rest) := by
  unfold import? at h
  split at h
  next hbefore =>
    refine ⟨hbefore, ?_⟩
    obtain ⟨u, hu, h⟩ := Option.bind_eq_some_iff.1 h
    dsimp only at h
    split at h
    next hclause =>
      obtain ⟨⟨path', w⟩, hw, h⟩ := Option.bind_eq_some_iff.1 h
      split at h
      next => cases h
      next d rest' hrest =>
        cases h
        have hcut := List.takeWhile_append_dropWhile (p := fun c => !(isQuote c || c == ';')) (l := u)
        have hsuffix : rest <:+ u.dropWhile fun c => !(isQuote c || c == ';') :=
          ((List.suffix_cons d rest).trans (hrest ▸ List.dropWhile_suffix _)).trans (suffix_of_quotedPath? hw)
        obtain ⟨v, hv⟩ := hsuffix
        rw [isClause, Bool.and_eq_true] at hclause
        obtain ⟨c, between, hbetween⟩ : ∃ c t, u.takeWhile (fun c => !(isQuote c || c == ';')) = c :: t := by
          cases ht : u.takeWhile fun c => !(isQuote c || c == ';') with
          | nil =>
            rw [ht] at hclause
            cases hclause.1
          | cons c t => exact ⟨c, t, rfl⟩
        rw [hbetween] at hclause
        refine ⟨c, between ++ v, hclause.1, ?_⟩
        rw [after?_eq_some.1 hu, List.append_assoc between, hv, ← List.cons_append, ← hbetween, hcut]
    next => cases h
  next => cases h

theorem isAnchored_import? : IsAnchored import? where
  inside h := import?_of_inside h _
  skip {before s} h := by
    rw [import?, import?, if_pos h, if_pos (by rfl), dropWhile_of_head (head?_dropWhile_any isBlank s)]
  taken {before s path rest} h := by
    obtain ⟨-, c, later, -, hs⟩ := import?_eq_some h
    refine ⟨s.takeWhile isBlank ++ ("import".toList ++ c :: later), by simp, ?_⟩
    calc s = s.takeWhile isBlank ++ s.dropWhile isBlank := List.takeWhile_append_dropWhile.symm
      _ = _ := by simp [hs]

/-- A line that begins with no blank and not as an import does. -/
def isOther (line : List Char) : Bool :=
  line.head?.any (fun c => !isBlank c && c != 'i') && !line.contains '\n'

/-- A line that does not begin as an import does is passed over. -/
theorem finds_line {line : List Char} (h : isOther line = true) : Finds import? (line ++ ['\n']) [] := by
  rw [isOther, Bool.and_eq_true, Bool.not_eq_true', ← Bool.not_eq_true, List.contains_iff_mem] at h
  obtain ⟨hhead, hline⟩ := h
  rcases line with _ | ⟨c, s⟩
  · cases hhead
  rw [List.head?_cons, Option.any_some, Bool.and_eq_true, Bool.not_eq_true', bne_iff_ne] at hhead
  rw [List.mem_cons, not_or] at hline
  have hword : "import".toList = 'i' :: "mport".toList := by decide
  intro before rest
  have hnone : import? before (c :: (s ++ '\n' :: rest)) = none := by
    rw [import?, List.dropWhile_cons_of_neg (by rw [hhead.1]; exact Bool.false_ne_true), hword,
      after?_of_ne hhead.2.symm]
    exact ite_self none
  have hinside : atLineStart (some c) = false := by simpa [atLineStart] using Ne.symm hline.1
  have hend : atLineStart (s.getLast?.or (some c)) = false := by
    cases h : s.getLast? with
    | none => exact hinside
    | some d =>
      have hd : d ≠ '\n' := by
        rintro rfl
        exact hline.2 (List.mem_of_getLast? h)
      simpa [atLineStart] using hd
  rw [List.append_assoc, List.cons_append, List.singleton_append, matchesFrom, hnone,
    isAnchored_import?.matchesFrom_inside hline.2 hinside, matchesFrom, import?_of_inside hend, List.nil_append,
    List.getLast?_concat]
  rfl

theorem quotedPath?_append {q : Char} (hq : isQuote q = true) {path : List Char} (hpath : path ≠ [])
    (hplain : ∀ c ∈ path, isQuote c = false) (rest : List Char) :
    quotedPath? (q :: (path ++ q :: rest)) = some (path, rest) := by
  have hkeep : ∀ c ∈ path, (!isQuote c) = true := fun c hc => by rw [hplain c hc]; rfl
  have hend : (q :: rest).head?.any (!isQuote ·) = false := by simp [hq]
  rw [quotedPath?, List.takeWhile_append_of_pos hkeep, List.dropWhile_append_of_pos hkeep,
    takeWhile_of_head hend, dropWhile_of_head hend, List.append_nil, hq]
  obtain ⟨d, path, rfl⟩ := List.exists_cons_of_ne_nil hpath
  rfl

/-- A statement at the start of a line is read up to its semicolon. -/
theorem import?_of_between {between path behind : List Char} {q : Char} (hclause : isClause between = true)
    (hbetween : ∀ c ∈ between, isQuote c = false ∧ c ≠ ';') (hq : isQuote q = true) (hpath : path ≠ [])
    (hplain : ∀ c ∈ path, isQuote c = false) (hbehind : ';' ∉ behind) {before : Option Char}
    (h : atLineStart before = true) {s rest : List Char} (hs : s.dropWhile isBlank = "import".toList ++
      (between ++ q :: (path ++ q :: (behind ++ ';' :: rest)))) : import? before s = some (path, rest) := by
  have hkeep : ∀ c ∈ between, (!(isQuote c || c == ';')) = true := by
    intro c hc
    obtain ⟨hquote, hend⟩ := hbetween c hc
    rw [hquote, beq_eq_false_iff_ne.2 hend]
    rfl
  have hstop : ∀ t : List Char, (q :: t).head?.any (fun c => !(isQuote c || c == ';')) = false := by simp [hq]
  have hskip : ∀ c ∈ behind, (c != ';') = true := by
    intro c hc
    rw [bne_iff_ne]
    rintro rfl
    exact hbehind hc
  rw [import?, if_pos h, hs, after?_append, Option.bind_some]
  dsimp only
  rw [List.takeWhile_append_of_pos hkeep, List.dropWhile_append_of_pos hkeep, takeWhile_of_head (hstop _),
    dropWhile_of_head (hstop _), List.append_nil, if_pos hclause, quotedPath?_append hq hpath hplain,
    Option.bind_some]
  dsimp only
  rw [List.dropWhile_append_of_pos hskip]
  rfl

/-- An import on a line of its own is found, whatever stands before and behind it. -/
theorem finds_importLine {path : String} (hpath : path.toList ≠ [])
    (hquote : ∀ c ∈ path.toList, isQuote c = false) :
    Finds import? ('\n' :: (importLine path).toList) [path.toList] := by
  have hbegin : "import \"".toList = "import".toList ++ [' ', '"'] := by decide
  have hend : "\";".toList = ['"', ';'] := by decide
  have hline : ∀ rest, (importLine path).toList ++ rest = "import".toList ++
      ([' '] ++ '"' :: (path.toList ++ '"' :: ([] ++ ';' :: rest))) := by
    intro rest
    rw [importLine, String.toList_append, String.toList_append, hbegin, hend]
    simp only [List.append_assoc, List.cons_append, List.nil_append]
  have hkeep : ∀ rest, ((importLine path).toList ++ rest).dropWhile isBlank = (importLine path).toList ++ rest := by
    intro rest
    rw [hline]
    rfl
  have hread : ∀ {before s rest}, atLineStart before = true →
      s.dropWhile isBlank = (importLine path).toList ++ rest → import? before s = some (path.toList, rest) :=
    fun h hs => import?_of_between (by decide) (by simp [isQuote]) (by decide) hpath hquote List.not_mem_nil
      h (hs.trans (hline _))
  intro before rest
  cases h : atLineStart before with
  | true =>
    refine matchesFrom_of_some nofun (hread h ?_)
    rw [List.cons_append, List.dropWhile_cons_of_pos (by decide), hkeep]
  | false =>
    have hnonempty : (importLine path).toList ≠ [] := fun hnil => by simpa [hnil] using hline []
    rw [List.cons_append, matchesFrom, import?_of_inside h, getLast?_cons_or]
    exact matchesFrom_of_some hnonempty (hread rfl (hkeep rest))

theorem import?_of_unquoted {s : List Char} (hs : ∀ c ∈ s, isQuote c = false)
    (before : Option Char) : import? before s = none := by
  have hquoted : ∀ t : List Char, (∀ c ∈ t, isQuote c = false) → quotedPath? t = none := by
    intro t ht
    cases t with
    | nil => rfl
    | cons c t => simp [quotedPath?, ht c List.mem_cons_self]
  unfold import?
  split
  · rw [Option.bind_eq_none_iff]
    intro u hu
    have hunquoted : ∀ c ∈ u, isQuote c = false := by
      intro c hc
      refine hs c ((List.dropWhile_sublist isBlank).subset ?_)
      rw [after?_eq_some.1 hu]
      exact List.mem_append_right _ hc
    dsimp only
    split
    · rw [hquoted _ fun c hc => hunquoted c ((List.dropWhile_sublist _).subset hc)]
      rfl
    · rfl
  · rfl

/-- A text without quotes imports nothing. -/
theorem matchesFrom_of_unquoted {s : List Char} (hs : ∀ c ∈ s, isQuote c = false) (n : Nat)
    (before : Option Char) : matchesFrom import? n before s = [] := by
  induction s generalizing n before with
  | nil => cases n <;> rfl
  | cons c s ih =>
    have ih := fun n => ih (fun d hd => hs d (List.mem_cons_of_mem c hd)) n (some c)
    cases n with
    | succ n => exact ih n
    | zero =>
      rw [matchesFrom, import?_of_unquoted hs]
      exact ih 0

end Solwright.Source
