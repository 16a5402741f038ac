import Solwright.Proofs.Source.Imported
import Solwright.Proofs.Source.Placement
import Solwright.Proofs.Text.Join

/-! Import statements in each of the forms that the language has for them. One that begins a line is read up
to its semicolon, and a line that does not begin with the word is passed over, so that a source of such
lines imports what its statements name. -/

namespace Solwright.Source

open Solwright.Text

/-- A name of the language. -/
def IsIdent (s : List Char) : Prop := s ≠ [] ∧ s.all isNameChar = true

/-- May stand between the braces of a statement: in names, between them, or around them. -/
def isListChar (c : Char) : Bool :=
  isNameChar c || c == ',' || isBlank c

/-- What stands in a statement before the quoted path and behind it: a source is imported as a whole, under a
name, by some of its symbols, or by all of them under a name. -/
inductive IsForm : List Char → List Char → Prop
  | whole {gap stop : List Char} : IsGap gap → IsBlank stop → IsForm gap stop
  | renamed {gap gap₁ gap₂ name stop : List Char} : IsGap gap → IsBlank gap₁ → IsGap gap₂ → IsIdent name →
      IsBlank stop → IsForm gap (gap₁ ++ ("as".toList ++ (gap₂ ++ (name ++ stop))))
  | listed {gap symbols gap₁ gap₂ stop : List Char} : IsGap gap → symbols.all isListChar = true →
      IsBlank gap₁ → IsGap gap₂ → IsBlank stop →
      IsForm ((gap ++ '{' :: (symbols ++ '}' :: gap₁)) ++ ("from".toList ++ gap₂)) stop
  | starred {gap gap₁ gap₂ name gap₃ gap₄ stop : List Char} : IsGap gap → IsBlank gap₁ → IsGap gap₂ →
      IsIdent name → IsGap gap₃ → IsGap gap₄ → IsBlank stop →
      IsForm ((gap ++ '*' :: (gap₁ ++ ("as".toList ++ (gap₂ ++ (name ++ gap₃))))) ++ ("from".toList ++ gap₄)) stop

/-- An import statement. -/
structure Statement where
  between : List Char
  quote : Char
  path : List Char
  behind : List Char
  form : IsForm between behind
  quoted : isQuote quote = true
  named : path ≠ []
  plain : path.all (fun c => !isQuote c && c != '\n') = true

def Statement.text (s : Statement) : List Char :=
  "import".toList ++ (s.between ++ s.quote :: (s.path ++ s.quote :: (s.behind ++ [';'])))

/-- A text that begins, white space apart, with the word, which ends there or before white space. -/
def BeginsImport (s : List Char) : Prop :=
  ∃ rest, s.dropWhile isBlank = "import".toList ++ rest ∧ rest.head?.all isBlank = true

theorem isWord_of_isBlank {c : Char} (h : isBlank c = true) : isWord c = false := by
  rw [isWord]
  split
  next =>
    refine Bool.eq_false_iff.2 fun hc => ?_
    rw [isBlank_of_isIdentChar hc] at h
    cases h
  next hascii =>
    -- beyond ASCII, no letter lies in one of the ranges that the white space is in
    have hapart : letterRanges.all (fun r =>
        [(0x85, 0x85), (0xA0, 0xA0), (0x1680, 0x1680), (0x2000, 0x200A), (0x2028, 0x205F), (0x3000, 0x3000)].all
          fun b => decide (r.2 < b.1 ∨ b.2 < r.1)) = true := by decide +kernel
    simp only [isBlank, Bool.or_eq_true, Bool.and_eq_true, decide_eq_true_eq, beq_iff_eq] at h
    rw [List.any_eq_false]
    intro r hr hin
    have hr := List.all_eq_true.1 hapart r hr
    simp only [inRange, Bool.and_eq_true, decide_eq_true_eq] at hin
    simp only [List.all_cons, List.all_nil, Bool.and_true, Bool.and_eq_true, decide_eq_true_eq] at hr
    omega

section Form

/-- Text without quotes and semicolons. -/
def IsBody (s : List Char) : Prop := ∀ c ∈ s, isQuote c = false ∧ c ≠ ';'

theorem isBody_of_all {s : List Char} (h : s.all (fun c => !isQuote c && c != ';') = true) : IsBody s := by
  simpa [IsBody] using h

theorem IsBody.append {s t : List Char} (hs : IsBody s) (ht : IsBody t) : IsBody (s ++ t) :=
  fun c hc => (List.mem_append.1 hc).elim (hs c) (ht c)

theorem IsBody.cons {c : Char} {s : List Char} (hc : isQuote c = false ∧ c ≠ ';') (hs : IsBody s) :
    IsBody (c :: s) :=
  List.forall_mem_cons.2 ⟨hc, hs⟩

theorem body_of_isBlank {c : Char} (h : isBlank c = true) : isQuote c = false ∧ c ≠ ';' := by
  refine ⟨isQuote_of_isBlank h, ?_⟩
  rintro rfl
  exact absurd h (by decide)

theorem isBody_of_isBlank {s : List Char} (hs : IsBlank s) : IsBody s :=
  fun c hc => body_of_isBlank (hs c hc)

theorem body_of_isNameChar {c : Char} (h : isNameChar c = true) : isQuote c = false ∧ c ≠ ';' := by
  constructor
  · rw [isQuote, Bool.or_eq_false_iff, beq_eq_false_iff_ne, beq_eq_false_iff_ne]
    constructor <;>
      · rintro rfl
        exact absurd h (by decide)
  · rintro rfl
    exact absurd h (by decide)

theorem IsIdent.isBody {s : List Char} (hs : IsIdent s) : IsBody s :=
  fun c hc => body_of_isNameChar (List.all_eq_true.1 hs.2 c hc)

variable {between behind : List Char}

theorem IsForm.isBody_between (h : IsForm between behind) : IsBody between := by
  have has : IsBody "as".toList := isBody_of_all (by decide)
  have hfrom : IsBody "from".toList := isBody_of_all (by decide)
  cases h with
  | whole hgap => exact isBody_of_isBlank hgap.2
  | renamed hgap => exact isBody_of_isBlank hgap.2
  | listed hgap hsymbols hgap₁ hgap₂ =>
    refine ((isBody_of_isBlank hgap.2).append (.cons (by decide) (IsBody.append ?_ ?_))).append
      (hfrom.append (isBody_of_isBlank hgap₂.2))
    · intro c hc
      have hchar := List.all_eq_true.1 hsymbols c hc
      rw [isListChar, Bool.or_eq_true, Bool.or_eq_true, beq_iff_eq] at hchar
      rcases hchar with (hc | rfl) | hc
      · exact body_of_isNameChar hc
      · decide
      · exact body_of_isBlank hc
    · exact .cons (by decide) (isBody_of_isBlank hgap₁)
  | starred hgap hgap₁ hgap₂ hname hgap₃ hgap₄ =>
    have hnamed := (isBody_of_isBlank hgap₂.2).append (hname.isBody.append (isBody_of_isBlank hgap₃.2))
    exact ((isBody_of_isBlank hgap.2).append (.cons (by decide) ((isBody_of_isBlank hgap₁).append
      (has.append hnamed)))).append (hfrom.append (isBody_of_isBlank hgap₄.2))

theorem IsForm.isBody_behind (h : IsForm between behind) : IsBody behind := by
  have has : IsBody "as".toList := isBody_of_all (by decide)
  cases h with
  | whole _ hstop => exact isBody_of_isBlank hstop
  | renamed _ hgap₁ hgap₂ hname hstop =>
    exact (isBody_of_isBlank hgap₁).append (has.append ((isBody_of_isBlank hgap₂.2).append
      (hname.isBody.append (isBody_of_isBlank hstop))))
  | listed _ _ _ _ hstop => exact isBody_of_isBlank hstop
  | starred _ _ _ _ _ _ hstop => exact isBody_of_isBlank hstop

theorem IsGap.head_isBlank {gap : List Char} (h : IsGap gap) (s : List Char) :
    (gap ++ s).head?.any isBlank = true := by
  obtain ⟨c, gap, rfl⟩ := List.exists_cons_of_ne_nil h.1
  exact h.2 c List.mem_cons_self

theorem isClause_of_isGap {gap : List Char} (h : IsGap gap) : isClause gap = true := by
  have hhead : gap.head?.any isBlank = true := by simpa using h.head_isBlank []
  rw [isClause, hhead, List.all_eq_true.2 h.2]
  rfl

/-- The word `from` is told wherever no word goes over into it. -/
theorem isClause_of_from {s gap : List Char} (hs : s.head?.any isBlank = true)
    (hapart : s.getLast?.any isWord = false) (hgap : IsGap gap) :
    isClause (s ++ ("from".toList ++ gap)) = true := by
  have hback : (s ++ ("from".toList ++ gap)).reverse = gap.reverse ++ ("morf".toList ++ s.reverse) := by simp
  have hgap' : IsGap gap.reverse := ⟨by simpa using hgap.1, fun c hc => hgap.2 c (List.mem_reverse.1 hc)⟩
  have hends : endsWithFrom (s ++ ("from".toList ++ gap)).reverse = true := by
    rw [endsWithFrom, hback, hgap'.afterSome? rfl, Option.bind_some, after?_append]
    simpa using hapart
  obtain ⟨c, s, rfl⟩ : ∃ c t, s = c :: t := by
    cases s with
    | nil => cases hs
    | cons c s => exact ⟨c, s, rfl⟩
  rw [isClause, hends, Bool.or_true, Bool.and_true]
  exact hs

theorem getLast?_of_isBlank {s t : List Char} (hs : s.getLast?.any isWord = false) (ht : IsBlank t) :
    (s ++ t).getLast?.any isWord = false := by
  rw [List.getLast?_append]
  cases h : t.getLast? with
  | none => exact hs
  | some c => exact isWord_of_isBlank (ht c (List.mem_of_getLast? h))

theorem IsForm.isClause (h : IsForm between behind) : isClause between = true := by
  cases h with
  | whole hgap => exact isClause_of_isGap hgap
  | renamed hgap => exact isClause_of_isGap hgap
  | @listed gap symbols gap₁ _ _ hgap _ hgap₁ hgap₂ =>
    refine isClause_of_from (hgap.head_isBlank _) ?_ hgap₂
    have hcut : gap ++ '{' :: (symbols ++ '}' :: gap₁) = (gap ++ '{' :: (symbols ++ ['}'])) ++ gap₁ := by simp
    rw [hcut]
    refine getLast?_of_isBlank ?_ hgap₁
    rw [← List.cons_append, ← List.append_assoc, List.getLast?_concat]
    decide
  | @starred gap gap₁ gap₂ name gap₃ _ _ hgap _ _ _ hgap₃ hgap₄ =>
    refine isClause_of_from (hgap.head_isBlank _) ?_ hgap₄
    obtain ⟨c, gap₃, rfl⟩ := List.exists_cons_of_ne_nil hgap₃.1
    have hcut : gap ++ '*' :: (gap₁ ++ ("as".toList ++ (gap₂ ++ (name ++ c :: gap₃)))) =
        ((gap ++ '*' :: (gap₁ ++ ("as".toList ++ (gap₂ ++ name)))) ++ [c]) ++ gap₃ := by simp
    rw [hcut]
    refine getLast?_of_isBlank ?_ fun d hd => hgap₃.2 d (List.mem_cons_of_mem c hd)
    rw [List.getLast?_concat]
    exact isWord_of_isBlank (hgap₃.2 c List.mem_cons_self)

end Form

theorem Statement.text_eq (s : Statement) : s.text =
    "import".toList ++ (s.between ++ s.quote :: (s.path ++ s.quote :: (s.behind ++ [';']))) := by
  -- the equation lemma of the definition would evaluate the word
  delta Statement.text
  rfl

theorem Statement.path_plain (s : Statement) : ∀ c ∈ s.path, isQuote c = false ∧ c ≠ '\n' := by
  simpa using s.plain

theorem Statement.getLast?_text (s : Statement) : s.text.getLast? = some ';' := by
  have hcut : ∀ w : List Char, w ++ (s.between ++ s.quote :: (s.path ++ s.quote :: (s.behind ++ [';']))) =
      (w ++ (s.between ++ s.quote :: (s.path ++ s.quote :: s.behind))) ++ [';'] := by simp
  rw [Statement.text_eq, hcut, List.getLast?_concat]

theorem Statement.text_ne_nil (s : Statement) : s.text ≠ [] := by
  intro h
  have hlast := s.getLast?_text
  rw [h] at hlast
  cases hlast

/-- A statement at the start of a line is read with its path, up to its semicolon. -/
theorem Statement.import?_eq (s : Statement) {before : Option Char} (h : atLineStart before = true)
    {lead : List Char} (hlead : IsBlank lead) (rest : List Char) : import? before (lead ++ (s.text ++ rest)) =
      some (s.path, rest) := by
  have hword : ∀ t, ("import".toList ++ t).head?.any isBlank = false := fun _ => rfl
  refine import?_of_between s.form.isClause s.form.isBody_between s.quoted s.named (fun c hc => (s.path_plain c hc).1)
    (fun hmem => (s.form.isBody_behind _ hmem).2 rfl) h ?_
  rw [dropWhile_blanks hlead, Statement.text_eq, List.append_assoc, dropWhile_of_head (hword _)]
  simp only [List.append_assoc, List.cons_append, List.nil_append]

/-- Where an import begins, the text up to a place that is no part of the word begins with it. -/
theorem beginsImport_of_some {a rest : List Char} {found : List Char × List Char}
    (h : import? none (a ++ rest) = some found) (hstop : ∀ c ∈ rest.head?, c ∉ "import".toList)
    (hsolid : ¬IsBlank a ∨ rest.head?.any isBlank = false) : BeginsImport a := by
  obtain ⟨-, c, later, hc, htext⟩ := import?_eq_some h
  have hdrop : (a ++ rest).dropWhile isBlank = a.dropWhile isBlank ++ rest := by
    by_cases ha : IsBlank a
    · rw [dropWhile_blanks ha, dropWhile_of_head (hsolid.resolve_left (not_not_intro ha)),
        List.dropWhile_eq_nil_iff.2 ha, List.nil_append]
    · exact dropWhile_append_of_mem (exists_of_not_isBlank ha) rest
  have hword : after? "import".toList (a.dropWhile isBlank ++ rest) = some (c :: (later ++ found.2)) := by
    rw [← hdrop, htext, after?_append]
  rw [after?_append_of_notMem hstop, Option.map_eq_some_iff] at hword
  obtain ⟨w, hw, hw'⟩ := hword
  refine ⟨w, after?_eq_some.1 hw, ?_⟩
  cases w with
  | nil => rfl
  | cons d w =>
    obtain ⟨rfl, -⟩ := List.cons.inj hw'
    exact hc

/-- A line of a source: an import statement, with anything behind it, or a line that does not begin with the
word. -/
inductive Line
  | importing (lead : List Char) (blank : IsBlank lead) (s : Statement) (trail : List Char)
  | other (text : List Char) (plain : ¬BeginsImport text)

namespace Line

def text : Line → List Char
  | importing lead _ s trail => lead ++ (s.text ++ trail)
  | other text _ => text

/-- The path that a line imports, if it imports one. -/
def paths : Line → List (List Char)
  | importing _ _ s _ => [s.path]
  | other _ _ => []

theorem matchesFrom_later (later : List (List Char)) (before before' : Option Char) :
    matchesFrom import? 0 before (later.flatMap ('\n' :: ·)) =
      matchesFrom import? 0 before' (later.flatMap ('\n' :: ·)) := by
  cases later with
  | nil => rfl
  | cons s later =>
    rw [List.flatMap_cons, List.cons_append, isAnchored_import?.matchesFrom_line,
      isAnchored_import?.matchesFrom_line]

/-- What a scan finds in a line is what the line imports. -/
theorem matchesFrom_text {l : Line} (hl : '\n' ∉ l.text) (later : List (List Char)) :
    matchesFrom import? 0 none (l.text ++ later.flatMap ('\n' :: ·)) =
      l.paths ++ matchesFrom import? 0 none (later.flatMap ('\n' :: ·)) := by
  have hanchored := isAnchored_import?
  cases l with
  | importing lead blank s trail =>
    have hread := @Statement.import?_eq s none rfl lead blank (trail ++ later.flatMap ('\n' :: ·))
    have hend : atLineStart ((lead ++ s.text).getLast?.or none) = false := by
      rw [List.getLast?_append, s.getLast?_text]
      rfl
    have htrail : '\n' ∉ trail := fun hmem => hl (by simp [text, hmem])
    rw [← List.append_assoc] at hread
    rw [text, ← List.append_assoc, List.append_assoc, matchesFrom_of_some (by simp [s.text_ne_nil]) hread,
      hanchored.matchesFrom_inside htrail hend, matchesFrom_later later _ none]
    rfl
  | other line plain =>
    rw [text] at hl ⊢
    by_cases hblank : IsBlank line
    · exact hanchored.matchesFrom_of_fresh hblank (.inl rfl) _
    · have hnone : import? none (line ++ later.flatMap ('\n' :: ·)) = none := by
        rw [Option.eq_none_iff_forall_ne_some]
        intro found hfound
        refine plain (beginsImport_of_some hfound ?_ (.inl hblank))
        cases later with
        | nil => nofun
        | cons s later =>
          rintro c hc
          obtain rfl : '\n' = c := by simpa using hc
          decide
      rw [hanchored.matchesFrom_quiet (fun u v hv => ?_) (.inr hnone), matchesFrom_later later _ none]
      · rfl
      · exact absurd (hv ▸ List.mem_append_right u List.mem_cons_self) hl

theorem allMatches_joinWith {lines : List Line} (hlines : ∀ l ∈ lines, '\n' ∉ l.text) :
    allMatches import? (joinWith ['\n'] (lines.map text)) = lines.flatMap paths := by
  induction lines with
  | nil => rfl
  | cons l lines ih =>
    have hl := hlines l List.mem_cons_self
    have ih := ih fun m hm => hlines m (List.mem_cons_of_mem l hm)
    rw [List.map_cons, joinWith_cons, allMatches, matchesFrom_text hl, List.flatMap_cons]
    congr 1
    cases lines with
    | nil => rfl
    | cons m lines =>
      rw [← ih, List.map_cons, List.flatMap_cons, List.cons_append, isAnchored_import?.matchesFrom_line,
        joinWith_cons]

end Line

/-- A source of lines imports what its statements name, in their order and as often as they do. -/
theorem imports_lines {source : String} {lines : List Line} (hlines : ∀ l ∈ lines, '\n' ∉ l.text)
    (hs : source.toList = joinWith ['\n'] (lines.map Line.text)) : imports source =
      (lines.flatMap Line.paths).map String.ofList := by
  rw [imports, hs, Line.allMatches_joinWith hlines]

theorem not_beginsImport {s : List Char} (h : (after? "import".toList (s.dropWhile isBlank)).all
    (fun rest => rest.head?.any (!isBlank ·)) = true) : ¬BeginsImport s := by
  rintro ⟨rest, hs, hend⟩
  rw [hs, after?_append, Option.all_some] at h
  cases rest with
  | nil => cases h
  | cons c rest =>
    have hc : isBlank c = true := hend
    have hc' : (!isBlank c) = true := h
    rw [hc] at hc'
    cases hc'

theorem isGap_space : IsGap [' '] := by simp [IsGap, isBlank]

theorem imports_lines_mixed : imports ("import \x7bA, B as C\x7d from \x27a.sol\x27; import \"c.sol\";\n" ++
    "// import \"d.sol\";\n\timport \"a.sol\" as A;") = ["a.sol", "a.sol"] := by
  let listed : Statement := ⟨_, '\'', "a.sol".toList, _, @IsForm.listed [' '] "A, B as C".toList [' '] [' '] []
    isGap_space (by decide) isGap_space.2 isGap_space nofun, by decide, by decide, by decide⟩
  let renamed : Statement := ⟨_, '"', "a.sol".toList, _, @IsForm.renamed [' '] [' '] [' '] "A".toList []
    isGap_space isGap_space.2 isGap_space ⟨by decide, by decide⟩ nofun, by decide, by decide, by decide⟩
  let lines : List Line := [.importing [] nofun listed " import \"c.sol\";".toList,
    .other "// import \"d.sol\";".toList (not_beginsImport (by decide)),
    .importing ['\t'] (by simp [IsBlank, isBlank]) renamed []]
  exact (@imports_lines _ lines (by decide) (by decide)).trans (by decide +kernel)

end Solwright.Source
