import Solwright.Compiler.Output
import Solwright.Proofs.Source.Respaced
import Solwright.Proofs.Text.Join

/-! What a comment on lines of its own means to a scan that does not know comments. The scan of a text is
that of its lines, unless a declaration goes on from one line to the next, and a comment then adds what
its own lines look like and the braces and parentheses that it counts. -/

namespace Solwright.Source

open Solwright.Text

/-- A comment: up to the end of its line, or up to its closing mark. -/
inductive IsComment : List Char → Prop
  | line {text : List Char} : '\n' ∉ text → IsComment ("//".toList ++ text)
  | block {text : List Char} : ¬"*/".toList <:+: text → IsComment ("/*".toList ++ (text ++ "*/".toList))

/-- A declaration goes on over the end of a text: the word stands before it and the name behind it. -/
def SplitsDeclaration (x y : List Char) : Prop :=
  ∃ before gap, x = before ++ ("contract".toList ++ gap) ∧ BeginsLine before ∧ IsBlank gap ∧
    (y.dropWhile isBlank).head?.any isIdentStart = true

theorem IsLead.mem {l : List Char} (hl : IsLead l) {c : Char} (hc : c ∈ l) :
    isBlank c = true ∨ c ∈ "abstract".toList := by
  cases hl with
  | plain hblanks => exact .inl (hblanks c hc)
  | abstract hblanks hgap =>
    rcases List.mem_append.1 hc with hc | hc
    · exact .inl (hblanks c hc)
    · exact (List.mem_append.1 hc).elim .inr fun hc => .inl (hgap.2 c hc)

theorem IsLead.slash_notMem {l : List Char} (hl : IsLead l) : '/' ∉ l := fun hmem =>
  (hl.mem hmem).elim (absurd · (by decide)) (absurd · (by decide))

theorem matchesFrom_of_notMem {s : List Char} (hs : 'o' ∉ s) (before : Option Char) :
    matchesFrom declaration? 0 before s = [] := by
  induction s generalizing before with
  | nil => rfl
  | cons c s ih =>
    have hnone : declaration? before (c :: s) = none := by
      rw [Option.eq_none_iff_forall_ne_some]
      rintro ⟨name, rest⟩ h
      obtain ⟨-, l, gap, -, -, htext, -⟩ := declaration?_eq_some h
      have hword : 'o' ∈ "contract".toList := by decide
      exact hs (htext ▸ List.mem_append_right l (List.mem_append_left _ hword))
    rw [matchesFrom, hnone]
    exact ih (fun h => hs (List.mem_cons_of_mem c h)) (some c)

/-- A declaration of a text is found with a further line behind the text. -/
theorem declaration?_append_line {before : Option Char} {s name rest : List Char}
    (h : declaration? before s = some (name, rest)) (y : List Char) :
    declaration? before (s ++ '\n' :: y) = some (name, rest ++ '\n' :: y) := by
  obtain ⟨hbefore, l, gap, hl, hgap, rfl, hname⟩ := declaration?_eq_some h
  obtain ⟨-, hstart, hwhole⟩ := whole_of_identifier? hname
  have hend : (rest ++ '\n' :: y).head?.any isIdentChar = false :=
    head?_append_any (z := []) (by rwa [List.append_nil]) (by rfl)
  have hfound := declaration?_of_lead hbefore hl hgap hstart (isIdentChar_of_identifier? hname) hend
  simpa only [List.append_assoc] using hfound

/-- Where a declaration is found that has a line end in it or behind it: it is one of the text before the
line end, or of the text behind it, or it goes on over the line end. -/
theorem declaration?_line_cases {pre t y name rest : List Char}
    (h : declaration? pre.getLast? (t ++ '\n' :: y) = some (name, rest)) :
    (∃ taken x, taken ≠ [] ∧ t = taken ++ x ∧ rest = x ++ '\n' :: y ∧
        declaration? pre.getLast? t = some (name, x)) ∨
      ('o' ∉ t ∧ ∃ w, y = w ++ (name ++ rest) ∧ declaration? none y = some (name, rest)) ∨
      SplitsDeclaration (pre ++ t) y := by
  obtain ⟨hbefore, l, gap, hl, hgap, htext, hname⟩ := declaration?_eq_some h
  have hchars := isIdentChar_of_identifier? hname
  obtain ⟨-, hstart, hwhole⟩ := whole_of_identifier? hname
  have hnewline : IsGap ['\n'] := by simp [IsGap, isBlank]
  rcases gap_apart hnewline isSolid_contract htext with ⟨u, rfl, hu⟩ | ⟨u, rfl, rfl⟩
  · rcases gap_apart hnewline (isSolid_of_identifier? hname) hu.symm with
      ⟨x, rfl, rfl⟩ | ⟨u', rfl, rfl⟩
    · refine .inl ⟨l ++ ("contract".toList ++ (gap ++ name)), x, by simp, by simp, rfl, ?_⟩
      have hend : x.head?.any isIdentChar = false := by
        rw [← x.append_nil]
        exact head?_append_any hwhole rfl
      exact declaration?_of_lead hbefore hl hgap hstart hchars hend
    · refine .inr (.inr ⟨pre ++ l, u, by simp, ⟨pre, l, rfl, hbefore, hl⟩, IsBlank.left hgap.2, ?_⟩)
      have hu' : IsBlank u' := IsBlank.right (IsBlank.right hgap.2)
      rw [dropWhile_blanks hu', dropWhile_of_head (head_not_isBlank hstart)]
      cases name with
      | nil => cases hstart
      | cons c name => exact hstart
  · refine .inr (.inl ⟨fun ho => ?_, u ++ ("contract".toList ++ gap), by simp, ?_⟩)
    · rcases hl.mem (List.mem_append_left _ ho) with ho | ho
      · exact absurd ho (by decide)
      · exact absurd ho (by decide)
    · exact declaration?_of_lead rfl hl.tail hgap hstart hchars hwhole

/-- The scan of two lines is that of the first and then that of the second. -/
theorem matchesFrom_append_line {y : List Char} (pre t : List Char) (h : ¬SplitsDeclaration (pre ++ t) y) :
    matchesFrom declaration? 0 pre.getLast? (t ++ '\n' :: y) =
      matchesFrom declaration? 0 pre.getLast? t ++ declarations y := by
  have hanchored := isAnchored_declaration?
  induction hn : t.length using Nat.strongRecOn generalizing pre t with
  | ind n ih =>
    subst hn
    cases hfound : declaration? pre.getLast? (t ++ '\n' :: y) with
    | some found =>
      obtain ⟨name, rest⟩ := found
      rcases declaration?_line_cases hfound with ⟨taken, x, htaken, rfl, rfl, ht⟩ | ⟨ho, w, hy, hlater⟩ | hsplit
      · have hlt : x.length < (taken ++ x).length := by simpa using List.length_pos_iff.2 htaken
        have hcut : pre ++ (taken ++ x) = (pre ++ taken) ++ x := (List.append_assoc ..).symm
        rw [List.append_assoc] at hfound ⊢
        rw [matchesFrom_of_some htaken hfound, matchesFrom_of_some htaken ht, ← List.getLast?_append,
          ih _ hlt (pre ++ taken) x (hcut ▸ h) rfl, List.cons_append]
      · subst hy
        have hcut : t ++ '\n' :: (w ++ (name ++ rest)) = (t ++ '\n' :: w) ++ (name ++ rest) := by simp
        rw [hcut] at hfound ⊢
        rw [matchesFrom_of_name hfound, matchesFrom_of_notMem ho, List.nil_append, declarations, allMatches,
          matchesFrom_of_name hlater]
      · exact absurd hsplit h
    | none =>
      cases t with
      | nil => exact hanchored.matchesFrom_line _ y
      | cons c t =>
        have hnone : declaration? pre.getLast? (c :: t) = none := by
          rw [Option.eq_none_iff_forall_ne_some]
          rintro ⟨name, x⟩ ht
          rw [declaration?_append_line ht y] at hfound
          cases hfound
        have hcut : pre ++ c :: t = (pre ++ [c]) ++ t := by simp
        rw [List.cons_append] at hfound ⊢
        rw [matchesFrom_of_none hfound, matchesFrom_of_none hnone]
        exact ih t.length (Nat.lt_succ_self _) (pre ++ [c]) t (hcut ▸ h) rfl

theorem declarations_append_lines {above below : List (List Char)}
    (h : ¬SplitsDeclaration (joinWith ['\n'] above) (joinWith ['\n'] below)) :
    declarations (joinWith ['\n'] (above ++ below)) =
      declarations (joinWith ['\n'] above) ++ declarations (joinWith ['\n'] below) :=
  joinWith_append_induction
    (P := fun x y z => ¬SplitsDeclaration x y → declarations z = declarations x ++ declarations y)
    (fun _ _ => rfl) (fun _ _ => (List.append_nil _).symm) (fun x _ => matchesFrom_append_line [] x) above below h

section Comment

variable {comment lead trail : List Char}

theorem IsComment.exists_cons (hc : IsComment comment) : ∃ body, comment = '/' :: body := by
  cases hc with
  | line => exact ⟨_, rfl⟩
  | block => exact ⟨_, rfl⟩

/-- A comment with several lines ends with a slash. -/
theorem IsComment.slash_mem (hc : IsComment comment) {y v : List Char} (h : comment = y ++ '\n' :: v) :
    '/' ∈ v := by
  cases hc with
  | @line text htext =>
    have hmem : '\n' ∈ "//".toList ++ text := h ▸ List.mem_append_right y List.mem_cons_self
    rcases List.mem_append.1 hmem with hmem | hmem
    · exact absurd hmem (by decide)
    · exact absurd hmem htext
  | @block text htext =>
    have hlast := congrArg List.getLast? h
    have hslash : ("/*".toList ++ (text ++ "*/".toList)).getLast? = some '/' := by
      rw [← List.append_assoc, List.getLast?_append]
      rfl
    rw [hslash, List.getLast?_append, List.getLast?_cons] at hlast
    cases hv : v.getLast? with
    | none => simp [hv] at hlast
    | some d =>
      have hd : '/' = d := by simpa [hv] using hlast
      exact hd ▸ List.mem_of_getLast? hv

/-- Where a comment has something that begins a line as a declaration does, it stands behind a line end of
the comment. -/
theorem IsComment.line_of_lead (hc : IsComment comment) (hlead : IsBlank lead) (htrail : IsBlank trail)
    {u l z : List Char} (hu : atLineStart u.getLast? = true) (hl : IsLead l)
    (h : lead ++ (comment ++ trail) = u ++ (l ++ ("contract".toList ++ z))) :
    ∃ y v, comment = y ++ '\n' :: v ∧ v ++ trail = l ++ ("contract".toList ++ z) := by
  obtain ⟨body, rfl⟩ := hc.exists_cons
  have hword : ∀ {s}, IsBlank s → 'c' ∉ s := fun hs hmem => absurd (hs 'c' hmem) (by decide)
  rcases cons_of_append_eq (z := body ++ trail) h with ⟨p, rfl, hp⟩ | ⟨q, hq, rfl⟩
  · -- the lead stands behind the first slash, so that its line begins behind that
    rcases List.eq_nil_or_concat p with rfl | ⟨p, d, rfl⟩
    · rw [List.getLast?_concat] at hu
      exact absurd hu (by decide)
    rw [List.concat_eq_append, ← List.cons_append, ← List.append_assoc, List.getLast?_concat] at hu
    obtain rfl : d = '\n' := by simpa [atLineStart] using hu
    have hcut : p ++ '\n' :: (l ++ ("contract".toList ++ z)) = body ++ trail := by rw [hp]; simp
    rcases cons_of_append_eq hcut with ⟨v, rfl, hv⟩ | ⟨q, hq, -⟩
    · exact ⟨'/' :: p, v, rfl, hv.symm⟩
    · exact absurd (hq ▸ by simp) (hword htrail)
  · obtain ⟨q', hq', rfl⟩ := cons_of_append_notMem hl.slash_notMem hq.symm
    rw [head_contract] at hq'
    cases q' with
    | nil => exact absurd (List.cons.inj hq').1 (by decide)
    | cons c q' =>
      obtain ⟨rfl, -⟩ := List.cons.inj hq'
      exact absurd (by simp) (hword hlead)

theorem IsComment.not_splits (hc : IsComment comment) (hlead : IsBlank lead) (htrail : IsBlank trail)
    (y : List Char) : ¬SplitsDeclaration (lead ++ (comment ++ trail)) y := by
  rintro ⟨-, gap, htext, ⟨u, l, rfl, hu, hl⟩, hgap, -⟩
  rw [List.append_assoc] at htext
  obtain ⟨y', v, hlines, hv⟩ := hc.line_of_lead hlead htrail hu hl htext
  have hslash : '/' ∈ l ++ ("contract".toList ++ gap) := hv ▸ List.mem_append_left _ (hc.slash_mem hlines)
  rcases List.mem_append.1 hslash with hslash | hslash
  · exact hl.slash_notMem hslash
  · rcases List.mem_append.1 hslash with hslash | hslash
    · exact absurd hslash (by decide)
    · exact absurd (hgap _ hslash) (by decide)

theorem IsComment.splits_not (hc : IsComment comment) (hlead : IsBlank lead) (x : List Char)
    (below : List (List Char)) :
    ¬SplitsDeclaration x (joinWith ['\n'] ((lead ++ (comment ++ trail)) :: below)) := by
  rintro ⟨-, -, -, -, -, hname⟩
  obtain ⟨body, rfl⟩ := hc.exists_cons
  rw [joinWith_cons, List.append_assoc, dropWhile_blanks hlead] at hname
  exact Bool.false_ne_true hname

/-- A comment declares nothing by itself if no line of it begins as a declaration does. -/
theorem IsComment.declarations_eq (hc : IsComment comment) (hlead : IsBlank lead) (htrail : IsBlank trail)
    (hplain : ∀ y v, comment = y ++ '\n' :: v → ¬BeginsDeclaration v) :
    declarations (lead ++ (comment ++ trail)) = [] := by
  refine List.eq_nil_iff_forall_not_mem.2 fun name hmem => ?_
  have hscan : name ∈ matchesFrom declaration? 0 ([] : List Char).getLast? (lead ++ (comment ++ trail)) := hmem
  obtain ⟨u, t, rest, htext, -, hfound⟩ := exists_place_of_mem_matchesFrom hscan
  obtain ⟨hu, l, gap, hl, hgap, rfl, hname⟩ := declaration?_eq_some hfound
  obtain ⟨y, v, hlines, hv⟩ := hc.line_of_lead hlead htrail hu hl htext
  obtain ⟨-, hstart, -⟩ := whole_of_identifier? hname
  obtain ⟨c, name, rfl⟩ := List.exists_cons_of_ne_nil (isSolid_of_identifier? hname).1
  -- the name begins before the white space at the end
  have hcut : (l ++ ("contract".toList ++ gap)) ++ c :: (name ++ rest) = v ++ trail := by rw [hv]; simp
  rcases cons_of_append_eq hcut with ⟨v', rfl, -⟩ | ⟨q, hq, -⟩
  · exact hplain y _ hlines ⟨l, gap, c :: v', hl, hgap, hstart, by simp⟩
  · have hblank : isBlank c = true := htrail c (hq ▸ by simp)
    rw [isBlank_of_isIdentStart hstart] at hblank
    cases hblank

theorem declarations_commented {above below : List (List Char)} (hc : IsComment comment)
    (hlead : IsBlank lead) (htrail : IsBlank trail)
    (hplain : ∀ y v, comment = y ++ '\n' :: v → ¬BeginsDeclaration v)
    (hwhole : ¬SplitsDeclaration (joinWith ['\n'] above) (joinWith ['\n'] below)) :
    declarations (joinWith ['\n'] (above ++ (lead ++ (comment ++ trail)) :: below)) =
      declarations (joinWith ['\n'] (above ++ below)) := by
  have hbelow : declarations (joinWith ['\n'] ([lead ++ (comment ++ trail)] ++ below)) =
      declarations (lead ++ (comment ++ trail)) ++ declarations (joinWith ['\n'] below) :=
    declarations_append_lines (hc.not_splits hlead htrail _)
  rw [hc.declarations_eq hlead htrail hplain, List.nil_append, List.singleton_append] at hbelow
  rw [declarations_append_lines (hc.splits_not hlead _ below), declarations_append_lines hwhole, hbelow]

theorem count_commented {c : Char} (hblank : isBlank c = false) (hlead : IsBlank lead) (htrail : IsBlank trail)
    (above below : List (List Char)) :
    (joinWith ['\n'] (above ++ (lead ++ (comment ++ trail)) :: below)).count c =
      comment.count c + (joinWith ['\n'] (above ++ below)).count c := by
  have hnone : ∀ {s : List Char}, IsBlank s → s.count c = 0 := fun hs =>
    List.count_eq_zero.2 fun hmem => Bool.false_ne_true (hblank.symm.trans (hs c hmem))
  have hc : c ≠ '\n' := by
    rintro rfl
    exact absurd hblank (by decide)
  rw [List.append_cons, count_joinWith_append hc, count_joinWith_append hc, count_joinWith_append hc,
    joinWith, List.count_append, List.count_append, hnone hlead, hnone htrail]
  omega

end Comment

theorem problems_eq_nil_iff {source : String} : problems source = [] ↔
    pragmaWords <:+: source.toList ∧ contractWord <:+: source.toList ∧
      source.toList.count '{' = source.toList.count '}' ∧ source.toList.count '(' = source.toList.count ')' ∧
      declarations source.toList ≠ [] := by
  simp only [problems, flaws, List.map_eq_nil_iff, List.append_eq_nil_iff, ite_eq_left_iff,
    ite_eq_right_iff, List.cons_ne_nil, imp_false, not_not, contains_iff_isInfix, List.isEmpty_iff, and_assoc,
    ne_eq]

/-- What the compiler's output is read for depends on a source by what it declares. -/
theorem readJson_congr {source source' : String}
    (h : declarations source'.toList = declarations source.toList) (v : Json) (unit name : RawText) (strict : Bool) :
    Output.readJson v unit name strict source' = Output.readJson v unit name strict source := by
  simp only [Output.readJson, Output.read, Output.select, Output.choose, Output.lastDeclared, h]

/-- A comment on lines of its own leaves the first declaration and the contract that is chosen from an
output as they are, if no line of it begins as a declaration does and it does not stand between the word
of a declaration and the name. A source that was accepted then stays so exactly if the comment has as many
opening as closing braces and as many opening as closing parentheses. -/
theorem report_commented {source commented : String} {above below : List (List Char)}
    {comment lead trail : List Char} (hc : IsComment comment) (hlead : IsBlank lead) (htrail : IsBlank trail)
    (hs : source.toList = joinWith ['\n'] (above ++ below))
    (hs' : commented.toList = joinWith ['\n'] (above ++ (lead ++ (comment ++ trail)) :: below))
    (hplain : ∀ y v, comment = y ++ '\n' :: v → ¬BeginsDeclaration v)
    (hwhole : ¬SplitsDeclaration (joinWith ['\n'] above) (joinWith ['\n'] below)) :
    firstDeclared? commented = firstDeclared? source ∧
      (∀ v unit name strict,
        Output.readJson v unit name strict commented = Output.readJson v unit name strict source) ∧
      (problems source = [] → (problems commented = [] ↔
        comment.count '{' = comment.count '}' ∧ comment.count '(' = comment.count ')')) := by
  have hsame : declarations commented.toList = declarations source.toList := by
    rw [hs, hs', declarations_commented hc hlead htrail hplain hwhole]
  refine ⟨by rw [firstDeclared?, firstDeclared?, hsame], readJson_congr hsame, fun haccepted => ?_⟩
  obtain ⟨hpragma, hcontract, hbraces, hparens, hdeclares⟩ := problems_eq_nil_iff.1 haccepted
  have hword : ∀ {w : List Char}, w ≠ [] → '\n' ∉ w → w <:+: source.toList → w <:+: commented.toList := by
    intro w hw hnewline hin
    rw [hs] at hin
    obtain ⟨s, hmem, hin⟩ := exists_infix_of_joinWith hw hnewline hin
    rw [hs']
    refine hin.trans (infix_joinWith ?_)
    rcases List.mem_append.1 hmem with hmem | hmem
    · exact List.mem_append_left _ hmem
    · exact List.mem_append_right _ (List.mem_cons_of_mem _ hmem)
  have hcount : ∀ {c}, isBlank c = false → commented.toList.count c = comment.count c + source.toList.count c := by
    intro c hblank
    rw [hs, hs', count_commented hblank hlead htrail]
  have hpragma' := hword (by decide) (by decide) hpragma
  have hcontract' := hword (by decide) (by decide) hcontract
  rw [problems_eq_nil_iff, hsame, hcount (by decide : isBlank '{' = false), hcount (by decide : isBlank '}' = false),
    hcount (by decide : isBlank '(' = false), hcount (by decide : isBlank ')' = false)]
  constructor
  · rintro ⟨-, -, hbraces', hparens', -⟩
    exact ⟨by omega, by omega⟩
  · rintro ⟨hbraces', hparens'⟩
    exact ⟨hpragma', hcontract', by omega, by omega, hdeclares⟩

theorem plainLines_of_all {s : List Char} (h : (List.range (s.length + 1)).all (fun i =>
    (s.take i).getLast? != some '\n' || (declaration? none (s.drop i)).isNone) = true) :
    ∀ y v, s = y ++ '\n' :: v → ¬BeginsDeclaration v := by
  intro y v hs
  have hcut : s = (y ++ ['\n']) ++ v := by simp [hs]
  have hat := all_of_append hcut h
  rw [hcut, List.take_left, List.drop_left, List.getLast?_concat] at hat
  rw [beginsDeclaration_iff]
  simpa using hat

theorem not_splits_of_contains {x : List Char} (h : contains "contract".toList x = false) (y : List Char) :
    ¬SplitsDeclaration x y := by
  rintro ⟨before, gap, rfl, -⟩
  rw [contains_iff_isInfix.2 ⟨before, gap, by simp⟩] at h
  cases h

theorem isComment_block (text : List Char) (h : contains "*/".toList text = false) :
    IsComment ("/*".toList ++ (text ++ "*/".toList)) :=
  .block fun hin => by
    rw [contains_iff_isInfix.2 hin] at h
    cases h

theorem report_commented_block :
    let source := "pragma solidity ^0.8.20;\ncontract A \x7b\x7d\n"
    let commented := "pragma solidity ^0.8.20;\n  /* see (\x7b\x7d)\n the contract B */\ncontract A \x7b\x7d\n"
    problems commented = [] ∧ firstDeclared? commented = firstDeclared? source := by
  intro source commented
  obtain ⟨hfirst, -, haccepted⟩ := @report_commented source commented ["pragma solidity ^0.8.20;".toList]
    ["contract A \x7b\x7d".toList, []] "/* see (\x7b\x7d)\n the contract B */".toList "  ".toList []
    (isComment_block " see (\x7b\x7d)\n the contract B ".toList (by decide)) (by simp [IsBlank]; decide)
    nofun (by decide) (by decide) (plainLines_of_all (by decide)) (not_splits_of_contains (by decide) _)
  exact ⟨(haccepted (by decide)).2 (by decide), hfirst⟩

/-- Each of the conditions by itself: the braces and the parentheses of a comment, a line of it that begins
as a declaration does, and its place between the word of a declaration and the name. -/
theorem report_not_commented :
    let source := fun comment word : String => "pragma solidity ^0.8.20;\n" ++ comment ++ "contract " ++ word ++
      "A \x7b\x7d\n"
    (IsComment "// \x7d".toList ∧ IsComment "/* :( */".toList ∧ IsComment "/*\ncontract B\n*/".toList ∧
      IsComment "// name".toList) ∧
      (∀ word ∈ ["", "\n"], (source "" word).toList.all (fun c => !isQuote c && c != '/') = true ∧
        problems (source "" word) = [] ∧ firstDeclared? (source "" word) = some "A") ∧
      problems (source "// \x7d\n" "") = ["Unbalanced braces"] ∧
      problems (source "/* :( */\n" "") = ["Unbalanced parentheses"] ∧
      firstDeclared? (source "/*\ncontract B\n*/\n" "") = some "B" ∧
      problems (source "" "\n// name\n") = ["Invalid contract declaration"] := by
  refine ⟨⟨@IsComment.line " \x7d".toList (by decide), isComment_block " :( ".toList (by decide),
    isComment_block "\ncontract B\n".toList (by decide), @IsComment.line " name".toList (by decide)⟩, ?_⟩
  decide

end Solwright.Source
