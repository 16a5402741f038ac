import Mathlib.Data.List.Basic
import Solwright.Proofs.Source.Placement
import Solwright.Proofs.Text.Anchored
import Solwright.Source.Structure

/-! What the layout of a source means to its structural check. A declaration is told by words with white
space between them, so that one run of white space is as good as another, but for the line end that has
to stand in front of it; the two words that are looked for as they stand ask for a space. -/

namespace Solwright.Source

open Solwright.Text

/-- Text without white space. -/
def IsSolid (s : List Char) : Prop := s ≠ [] ∧ ∀ c ∈ s, isBlank c = false

/-- A text that begins, white space apart, as a contract declaration. -/
def BeginsDeclaration (s : List Char) : Prop :=
  ∃ l gap rest, IsLead l ∧ IsGap gap ∧ rest.head?.any isIdentStart = true ∧
    s = l ++ ("contract".toList ++ (gap ++ rest))

/-- White space behind the word begins with a space. -/
def SpacesContract (s : List Char) : Prop :=
  ∀ u c v, s = u ++ ("contract".toList ++ c :: v) → isBlank c = true → c = ' '

theorem isSolid_of_all {s : List Char} (h : (!s.isEmpty && s.all (!isBlank ·)) = true) : IsSolid s := by
  simpa [IsSolid] using h

theorem isSolid_contract : IsSolid "contract".toList := isSolid_of_all (by decide)

theorem isSolid_abstract : IsSolid "abstract".toList := isSolid_of_all (by decide)

theorem isSolid_of_identifier? {s name rest : List Char} (h : identifier? s = some (name, rest)) :
    IsSolid name := by
  refine ⟨?_, fun c hc => isBlank_of_isIdentChar (isIdentChar_of_identifier? h c hc)⟩
  rintro rfl
  exact absurd (whole_of_identifier? h).2.1 (by decide)

theorem isSolid_of_declaration? {before : Option Char} {s name rest : List Char}
    (h : declaration? before s = some (name, rest)) : IsSolid name := by
  obtain ⟨-, -, -, -, -, -, hname⟩ := declaration?_eq_some h
  exact isSolid_of_identifier? hname

/-- White space stands wholly behind or wholly before text without any. -/
theorem gap_apart {x gap y u p z : List Char} (hgap : IsGap gap) (hp : IsSolid p)
    (h : x ++ (gap ++ y) = u ++ (p ++ z)) :
    (∃ x', x = u ++ (p ++ x') ∧ z = x' ++ (gap ++ y)) ∨ ∃ u', u = x ++ (gap ++ u') ∧ y = u' ++ (p ++ z) := by
  obtain ⟨g, gs, rfl⟩ := List.exists_cons_of_ne_nil hgap.1
  obtain ⟨c, p, rfl⟩ := List.exists_cons_of_ne_nil hp.1
  have hclash : ∀ {d}, d ∈ g :: gs → d ∈ c :: p → False := fun hd hd' =>
    Bool.false_ne_true ((hp.2 _ hd').symm.trans (hgap.2 _ hd))
  rcases cons_of_append_eq h with ⟨u', rfl, hu⟩ | ⟨q, hq, rfl⟩
  · have hc : c ∉ gs := fun hmem => hclash (List.mem_cons_of_mem g hmem) List.mem_cons_self
    obtain ⟨u'', hy, rfl⟩ := cons_of_append_notMem hc hu.symm
    exact .inr ⟨u'', rfl, hy⟩
  · obtain ⟨x', hz, rfl⟩ := cons_of_append_notMem (hclash List.mem_cons_self) hq.symm
    exact .inl ⟨x', rfl, hz⟩

section Respaced

variable {gap gap' : List Char}

theorem isBlank_respaced {x y : List Char} (h : IsBlank (x ++ (gap ++ y))) (hgap' : IsGap gap') :
    IsBlank (x ++ (gap' ++ y)) :=
  h.left.append (IsBlank.append hgap'.2 h.right.right)

theorem IsGap.respaced {x y : List Char} (h : IsGap (x ++ (gap ++ y))) (hgap' : IsGap gap') :
    IsGap (x ++ (gap' ++ y)) :=
  ⟨by simp [hgap'.1], isBlank_respaced h.2 hgap'⟩

theorem IsLead.respaced {x y : List Char} (h : IsLead (x ++ (gap ++ y))) (hgap : IsGap gap)
    (hgap' : IsGap gap') : IsLead (x ++ (gap' ++ y)) := by
  generalize hl : x ++ (gap ++ y) = l at h
  cases h with
  | plain hblanks => exact .plain (isBlank_respaced (hl ▸ hblanks) hgap')
  | abstract hblanks hg =>
    rcases gap_apart hgap isSolid_abstract hl with ⟨x', rfl, rfl⟩ | ⟨u', rfl, rfl⟩
    · simpa only [List.append_assoc] using IsLead.abstract hblanks (hg.respaced hgap')
    · simpa only [List.append_assoc] using IsLead.abstract (isBlank_respaced hblanks hgap') hg

theorem head?_append_any {p : Char → Bool} {x z z' : List Char} (hx : (x ++ z).head?.any p = false)
    (hz' : z'.head?.any p = false) : (x ++ z').head?.any p = false := by
  cases x with
  | nil => exact hz'
  | cons c x => exact hx

/-- A declaration is told the same with other white space in it or behind it. -/
theorem declaration?_respaced {before : Option Char} {y b name rest : List Char} (hgap : IsGap gap)
    (hgap' : IsGap gap') (h : declaration? before (y ++ (gap ++ b)) = some (name, rest)) :
    (∃ taken x, taken ≠ [] ∧ y = taken ++ x ∧ rest = x ++ (gap ++ b) ∧
        declaration? before (y ++ (gap' ++ b)) = some (name, x ++ (gap' ++ b))) ∨
      ∃ u, b = u ++ (name ++ rest) ∧ declaration? before (y ++ (gap' ++ b)) = some (name, rest) := by
  obtain ⟨hbefore, l, g, hl, hg, htext, hname⟩ := declaration?_eq_some h
  have hsolid := isSolid_of_identifier? hname
  have hchars := isIdentChar_of_identifier? hname
  obtain ⟨-, hstart, hwhole⟩ := whole_of_identifier? hname
  rcases gap_apart hgap isSolid_contract htext with ⟨t, rfl, ht⟩ | ⟨u, rfl, rfl⟩
  · rcases gap_apart hgap hsolid ht.symm with ⟨x, rfl, rfl⟩ | ⟨u, rfl, rfl⟩
    · refine .inl ⟨l ++ ("contract".toList ++ (g ++ name)), x, by simp, by simp, rfl, ?_⟩
      simpa only [List.append_assoc] using
        declaration?_of_lead hbefore hl hg hstart hchars (head?_append_any hwhole (hgap'.head? b))
    · refine .inr ⟨u, rfl, ?_⟩
      simpa only [List.append_assoc] using
        declaration?_of_lead hbefore hl (hg.respaced hgap') hstart hchars hwhole
  · refine .inr ⟨u ++ ("contract".toList ++ g), by simp, ?_⟩
    simpa only [List.append_assoc] using
      declaration?_of_lead hbefore (hl.respaced hgap hgap') hg hstart hchars hwhole

theorem isAnchored_declaration? : IsAnchored declaration? where
  inside h := by rw [declaration?, h, if_neg Bool.false_ne_true]
  skip {before s} h := by
    rw [declaration?, declaration?, if_pos h, if_pos (by rfl),
      dropWhile_of_head (head?_dropWhile_any isBlank s)]
  taken := exists_taken

theorem beginsDeclaration_of_some {before : Option Char} {s name rest : List Char}
    (h : declaration? before s = some (name, rest)) : BeginsDeclaration s := by
  obtain ⟨-, l, g, hl, hg, hs, hname⟩ := declaration?_eq_some h
  refine ⟨l, g, name ++ rest, hl, hg, ?_, hs⟩
  obtain ⟨-, hstart, -⟩ := whole_of_identifier? hname
  cases name with
  | nil => cases hstart
  | cons c name => exact hstart

theorem beginsDeclaration_iff {s : List Char} :
    BeginsDeclaration s ↔ (declaration? none s).isSome = true := by
  constructor
  · rintro ⟨l, gap, rest, hl, hgap, hstart, rfl⟩
    obtain ⟨c, rest, rfl⟩ : ∃ c s, rest = c :: s := by
      cases rest with
      | nil => cases hstart
      | cons c rest => exact ⟨c, rest, rfl⟩
    have hname : identifier? (c :: rest) = some (c :: rest.takeWhile isIdentChar, rest.dropWhile isIdentChar) := by
      rw [identifier?, if_pos (show isIdentStart c = true from hstart)]
    obtain ⟨hcut, hstart, hwhole⟩ := whole_of_identifier? hname
    rw [hcut, declaration?_of_lead rfl hl hgap hstart (isIdentChar_of_identifier? hname) hwhole]
    rfl
  · intro h
    obtain ⟨x, hx⟩ := Option.isSome_iff_exists.1 h
    exact beginsDeclaration_of_some hx

/-- After a declaration the scan goes on behind the name. -/
theorem matchesFrom_of_name {before : Option Char} {w name rest : List Char}
    (h : declaration? before (w ++ (name ++ rest)) = some (name, rest)) :
    matchesFrom declaration? 0 before (w ++ (name ++ rest)) =
      name :: matchesFrom declaration? 0 (name.getLast?.or none) rest := by
  have hname := (isSolid_of_declaration? h).1
  rw [← List.append_assoc] at h ⊢
  rw [matchesFrom_of_some (by simp [hname]) h, getLast?_append_or hname]

/-- White space is as good as any other, unless it alone begins the line of a declaration. -/
theorem matchesFrom_gap {b : List Char} (hgap : IsGap gap) (hgap' : IsGap gap')
    (hline : BeginsDeclaration b → ('\n' ∈ gap ↔ '\n' ∈ gap')) (before : Option Char) :
    matchesFrom declaration? 0 before (gap ++ b) = matchesFrom declaration? 0 before (gap' ++ b) := by
  have hanchored := isAnchored_declaration?
  by_cases hbefore : atLineStart before = true
  · rw [hanchored.matchesFrom_of_fresh hgap.2 (.inl hbefore),
      hanchored.matchesFrom_of_fresh hgap'.2 (.inl hbefore)]
  have hbefore : atLineStart before = false := by simpa using hbefore
  cases hb : declaration? none b with
  | none =>
    have hpass : ∀ {g : List Char}, IsGap g →
        matchesFrom declaration? 0 before (g ++ b) = matchesFrom declaration? 0 none b := by
      intro g hg
      by_cases hg' : '\n' ∈ g
      · exact hanchored.matchesFrom_of_fresh hg.2 (.inr hg') b
      · rw [hanchored.matchesFrom_inside hg' hbefore]
        exact hanchored.matchesFrom_of_none hb _ _
    rw [hpass hgap, hpass hgap']
  | some x =>
    have hnewline := hline (beginsDeclaration_of_some hb)
    by_cases hg : '\n' ∈ gap
    · rw [hanchored.matchesFrom_of_fresh hgap.2 (.inr hg),
        hanchored.matchesFrom_of_fresh hgap'.2 (.inr (hnewline.1 hg))]
    · obtain ⟨c, hc, hscan⟩ := hanchored.matchesFrom_of_stale hg hbefore b
      obtain ⟨c', hc', hscan'⟩ := hanchored.matchesFrom_of_stale (mt hnewline.2 hg) hbefore b
      rw [hscan, hscan']
      cases b with
      | nil => rfl
      | cons d b => rw [matchesFrom, matchesFrom, hanchored.inside hc, hanchored.inside hc']

theorem matchesFrom_respaced {b : List Char} (hgap : IsGap gap) (hgap' : IsGap gap')
    (hline : BeginsDeclaration b → ('\n' ∈ gap ↔ '\n' ∈ gap')) (before : Option Char) (y : List Char) :
    matchesFrom declaration? 0 before (y ++ (gap ++ b)) =
      matchesFrom declaration? 0 before (y ++ (gap' ++ b)) := by
  induction hn : y.length using Nat.strongRecOn generalizing before y with
  | ind n ih =>
    subst hn
    cases h : declaration? before (y ++ (gap ++ b)) with
    | some found =>
      obtain ⟨name, rest⟩ := found
      rcases declaration?_respaced hgap hgap' h with ⟨taken, x, htaken, rfl, rfl, h'⟩ | ⟨u, rfl, h'⟩
      · have hlt : x.length < (taken ++ x).length := by simpa using List.length_pos_iff.2 htaken
        simp only [List.append_assoc] at h h' ⊢
        rw [matchesFrom_of_some htaken h, matchesFrom_of_some htaken h', ih _ hlt _ x rfl]
      · -- the declaration goes on behind the white space, and the scan with it
        have hcut : ∀ g, y ++ (g ++ (u ++ (name ++ rest))) = (y ++ (g ++ u)) ++ (name ++ rest) := by simp
        rw [hcut] at h h' ⊢
        rw [hcut, matchesFrom_of_name h, matchesFrom_of_name h']
    | none =>
      have h' : declaration? before (y ++ (gap' ++ b)) = none := by
        rw [Option.eq_none_iff_forall_ne_some]
        rintro ⟨name, rest⟩ h'
        rcases declaration?_respaced hgap' hgap h' with ⟨_, _, -, -, -, h''⟩ | ⟨_, -, h''⟩ <;>
          · rw [h] at h''
            cases h''
      cases y with
      | nil => exact matchesFrom_gap hgap hgap' hline before
      | cons c y =>
        rw [List.cons_append] at h h' ⊢
        rw [List.cons_append, matchesFrom, matchesFrom, h, h']
        exact ih y.length (Nat.lt_succ_self _) (some c) y rfl

theorem declarations_respaced {a b : List Char} (hgap : IsGap gap) (hgap' : IsGap gap')
    (hline : BeginsDeclaration b → ('\n' ∈ gap ↔ '\n' ∈ gap')) :
    declarations (a ++ (gap' ++ b)) = declarations (a ++ (gap ++ b)) :=
  (matchesFrom_respaced hgap hgap' hline none a).symm

variable {a b : List Char}

/-- Two words with a space between them: the text has them behind the white space, or the first one
before it. -/
theorem infix_cases {p q : List Char} (hgap : IsGap gap) (hp : IsSolid p)
    (h : p ++ ' ' :: q <:+: a ++ (gap ++ b)) : p ++ ' ' :: q <:+: b ∨
      ∃ u x v, a = u ++ (p ++ x) ∧ ' ' :: (q ++ v) = x ++ (gap ++ b) := by
  obtain ⟨u, v, h⟩ := h
  have htext : a ++ (gap ++ b) = u ++ (p ++ (' ' :: (q ++ v))) := by rw [← h]; simp
  rcases gap_apart hgap hp htext with ⟨x, ha, hx⟩ | ⟨u', -, rfl⟩
  · exact .inr ⟨u, x, v, ha, hx⟩
  · exact .inl ⟨u', v, by simp⟩

theorem infix_contractWord (hgap : IsGap gap)
    (hword : "contract".toList <:+ a → gap.head? = some ' ' → gap'.head? = some ' ')
    (h : contractWord <:+: a ++ (gap ++ b)) : contractWord <:+: a ++ (gap' ++ b) := by
  have hsplit : contractWord = "contract".toList ++ ' ' :: [] := by decide
  rw [hsplit] at h ⊢
  rcases infix_cases hgap isSolid_contract h with hb | ⟨u, x, v, rfl, hv⟩
  · exact hb.trans ⟨a ++ gap', [], by simp⟩
  cases x with
  | cons c x =>
    obtain ⟨rfl, -⟩ := List.cons.inj hv
    exact ⟨u, x ++ (gap' ++ b), by simp⟩
  | nil =>
    obtain ⟨g, gs, rfl⟩ := List.exists_cons_of_ne_nil hgap.1
    obtain ⟨rfl, -⟩ := List.cons.inj hv
    have hhead := hword ⟨u, by simp⟩ rfl
    obtain ⟨gs', rfl⟩ : ∃ gs', gap' = ' ' :: gs' := List.head?_eq_some_iff.1 hhead
    exact ⟨u, gs' ++ b, by simp⟩

theorem infix_pragmaWords (hgap : IsGap gap)
    (hpragma : "pragma".toList <:+ a → "solidity".toList <+: b → gap = [' '] → gap' = [' '])
    (h : pragmaWords <:+: a ++ (gap ++ b)) : pragmaWords <:+: a ++ (gap' ++ b) := by
  have hsplit : pragmaWords = "pragma".toList ++ ' ' :: "solidity".toList := by decide
  have hsolid : IsSolid "solidity".toList := isSolid_of_all (by decide)
  rw [hsplit] at h ⊢
  rcases infix_cases hgap (isSolid_of_all (by decide)) h with hb | ⟨u, x, v, rfl, hv⟩
  · exact hb.trans ⟨a ++ gap', [], by simp⟩
  cases x with
  | cons c x =>
    obtain ⟨rfl, hx⟩ := List.cons.inj hv
    have hx : x ++ (gap ++ b) = [] ++ ("solidity".toList ++ v) := hx.symm
    rcases gap_apart hgap hsolid hx with ⟨x', rfl, -⟩ | ⟨u', hnil, -⟩
    · exact ⟨u, x' ++ (gap' ++ b), by simp⟩
    · exact absurd hnil (by simp [hgap.1])
  | nil =>
    obtain ⟨g, gs, rfl⟩ := List.exists_cons_of_ne_nil hgap.1
    obtain ⟨rfl, hx⟩ := List.cons.inj hv
    -- the second word follows at once, so that the space is all there is
    cases gs with
    | cons g gs =>
      obtain ⟨hg, -⟩ := List.cons.inj hx
      exact absurd (hgap.2 g (by simp)) (by rw [← hg]; decide)
    | nil =>
      have hb : "solidity".toList ++ v = b := hx
      rw [hpragma ⟨u, by simp⟩ ⟨v, hb⟩ rfl, ← hb]
      exact ⟨u, v, by simp⟩

theorem count_respaced {c : Char} (hc : isBlank c = false) (hgap : IsGap gap) (hgap' : IsGap gap') :
    (a ++ (gap' ++ b)).count c = (a ++ (gap ++ b)).count c := by
  have hnone : ∀ {g : List Char}, IsGap g → g.count c = 0 := fun hg =>
    List.count_eq_zero.2 fun hmem => Bool.false_ne_true (hc.symm.trans (hg.2 c hmem))
  simp only [List.count_append, hnone hgap, hnone hgap']

theorem flaws_respaced (hgap : IsGap gap) (hgap' : IsGap gap')
    (hline : BeginsDeclaration b → ('\n' ∈ gap ↔ '\n' ∈ gap'))
    (hword : "contract".toList <:+ a → (gap.head? = some ' ' ↔ gap'.head? = some ' '))
    (hpragma : "pragma".toList <:+ a → "solidity".toList <+: b → (gap = [' '] ↔ gap' = [' '])) :
    flaws (String.ofList (a ++ (gap' ++ b))) = flaws (String.ofList (a ++ (gap ++ b))) := by
  have hcontract : contains contractWord (a ++ (gap' ++ b)) = contains contractWord (a ++ (gap ++ b)) := by
    rw [Bool.eq_iff_iff, contains_iff_isInfix, contains_iff_isInfix]
    exact ⟨infix_contractWord hgap' fun ha => (hword ha).2, infix_contractWord hgap fun ha => (hword ha).1⟩
  have hdirective : contains pragmaWords (a ++ (gap' ++ b)) = contains pragmaWords (a ++ (gap ++ b)) := by
    rw [Bool.eq_iff_iff, contains_iff_isInfix, contains_iff_isInfix]
    exact ⟨infix_pragmaWords hgap' fun ha hb => (hpragma ha hb).2,
      infix_pragmaWords hgap fun ha hb => (hpragma ha hb).1⟩
  have hcount : ∀ {c}, isBlank c = false → (a ++ (gap' ++ b)).count c = (a ++ (gap ++ b)).count c :=
    fun hc => count_respaced hc hgap hgap'
  simp only [flaws, String.toList_ofList, hcontract, hdirective, hcount (by decide : isBlank '{' = false),
    hcount (by decide : isBlank '}' = false), hcount (by decide : isBlank '(' = false),
    hcount (by decide : isBlank ')' = false), declarations_respaced hgap hgap' hline]

end Respaced

/-- A source with a declaration whose word has a space behind it has the word that is looked for. -/
theorem noContract_notMem {source : String} (hspaces : SpacesContract source.toList)
    (h : declarations source.toList ≠ []) : Flaw.noContract ∉ flaws source := by
  obtain ⟨name, hname⟩ := List.exists_mem_of_ne_nil _ h
  have hscan : name ∈ matchesFrom declaration? 0 ([] : List Char).getLast? source.toList := hname
  obtain ⟨u, t, rest, hs, -, hfound⟩ := exists_place_of_mem_matchesFrom hscan
  obtain ⟨-, l, gap, -, hgap, rfl, -⟩ := declaration?_eq_some hfound
  obtain ⟨c, gap, rfl⟩ := List.exists_cons_of_ne_nil hgap.1
  have hsource : source.toList = (u ++ l) ++ ("contract".toList ++ c :: (gap ++ (name ++ rest))) := by
    rw [← List.nil_append source.toList, hs]
    simp
  obtain rfl := hspaces _ _ _ hsource (hgap.2 c List.mem_cons_self)
  have hsplit : contractWord = "contract".toList ++ [' '] := by decide
  have hword : contains contractWord source.toList = true := by
    rw [contains_iff_isInfix, hsource, hsplit]
    exact ⟨u ++ l, gap ++ (name ++ rest), by simp⟩
  simp [flaws, hword]

theorem spacesContract_of_all {s : List Char} (h : (List.range (s.length + 1)).all (fun i =>
    ((after? "contract".toList (s.drop i)).bind List.head?).all fun c => !isBlank c || c == ' ') = true) :
    SpacesContract s := by
  intro u c v hs hc
  have hat := all_of_append hs h
  rw [hs, List.drop_left, after?_append, Option.bind_some, List.head?_cons, Option.all_some, hc] at hat
  simpa using hat

theorem Flaw.message_injective : Function.Injective Flaw.message := by
  intro a b h
  cases a <;> cases b <;> first | rfl | exact absurd h (by decide)

/-- Another run of white space in the place of one leaves the report and the first declaration as they
are, if both have a line end or neither has where a declaration follows, if both begin with a space or
neither does behind the word that is looked for, and if both are a space or neither is between the two
words of the directive. Where the word has spaces behind it, a source with a declaration is not said to
have none. -/
theorem report_respaced {source source' : String} {a b gap gap' : List Char}
    (hs : source.toList = a ++ (gap ++ b)) (hs' : source'.toList = a ++ (gap' ++ b))
    (hgap : IsGap gap) (hgap' : IsGap gap')
    (hline : BeginsDeclaration b → ('\n' ∈ gap ↔ '\n' ∈ gap'))
    (hword : "contract".toList <:+ a → (gap.head? = some ' ' ↔ gap'.head? = some ' '))
    (hpragma : "pragma".toList <:+ a → "solidity".toList <+: b → (gap = [' '] ↔ gap' = [' '])) :
    problems source' = problems source ∧ firstDeclared? source' = firstDeclared? source ∧
      ∀ s : String, SpacesContract s.toList → firstDeclared? s ≠ none →
        Flaw.noContract.message ∉ problems s := by
  have hflaws := flaws_respaced hgap hgap' hline hword hpragma
  rw [← hs, ← hs', String.ofList_toList, String.ofList_toList] at hflaws
  refine ⟨congrArg (List.map Flaw.message) hflaws, ?_, fun s hspaces hfound hmem => ?_⟩
  · rw [firstDeclared?, firstDeclared?, hs, hs', declarations_respaced hgap hgap' hline]
  · have hdeclares : declarations s.toList ≠ [] := fun hnil => hfound (by rw [firstDeclared?, hnil]; rfl)
    rw [problems, List.mem_map_of_injective Flaw.message_injective] at hmem
    exact noContract_notMem hspaces hdeclares hmem

theorem report_respaced_indented :
    let source := "pragma solidity ^0.8.20;\nabstract contract A \x7b\x7d"
    let source' := "pragma solidity ^0.8.20; \r\n\tabstract contract A \x7b\x7d"
    problems source' = problems source ∧ firstDeclared? source' = firstDeclared? source ∧
      Flaw.noContract.message ∉ problems source := by
  intro source source'
  obtain ⟨hproblems, hfirst, hfound⟩ := @report_respaced source source' "pragma solidity ^0.8.20;".toList
    "abstract contract A \x7b\x7d".toList ['\n'] " \r\n\t".toList (by decide) (by decide)
    (by simp [IsGap]; decide) (by simp [IsGap]; decide) (fun _ => by decide)
    (fun ha => absurd (List.isSuffixOf_iff_suffix.2 ha) (by decide))
    (fun ha => absurd (List.isSuffixOf_iff_suffix.2 ha) (by decide))
  refine ⟨hproblems, hfirst, hfound source ?_ (by decide)⟩
  exact spacesContract_of_all (by decide)

/-- Each of the three places by itself: the line end in front of a declaration, the space behind its word,
and the space inside the directive. -/
theorem report_not_respaced :
    let source := fun gap gap' gap'' : String => "pragma" ++ gap ++ "solidity ^0.8.20;" ++ gap' ++
      "contract" ++ gap'' ++ "A \x7b\x7d"
    (source " " "\n" " ").toList.all (fun c => !isQuote c && c != '/') = true ∧
      problems (source " " "\n" " ") = [] ∧ firstDeclared? (source " " "\n" " ") = some "A" ∧
      problems (source " " " " " ") = ["Invalid contract declaration"] ∧
      firstDeclared? (source " " " " " ") = none ∧
      problems (source " " "\n" "\t") = ["No contract definition found"] ∧
      firstDeclared? (source " " "\n" "\t") = some "A" ∧
      problems (source "\t" "\n" " ") = ["Missing pragma solidity directive"] := by
  decide

end Solwright.Source
