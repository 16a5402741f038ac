import Mathlib.Data.List.Induction
import Mathlib.Data.List.Nodup
import Solwright.Proofs.Text.Trim
import Solwright.Suggestion.Keywords

/-! What becomes of the reading by keywords where words are added behind a text. The words of the whole are those
of its two parts, so no keyword and no name of the first part is lost, and the family of the whole is the one of
the two parts that comes first in the order of the rules. -/

namespace Solwright

namespace Text

theorem runs_cons_of_neg {p : Char → Bool} {c : Char} (hc : p c = false) (s : List Char) :
    runs p (c :: s) = runs p s := by
  rw [runs, if_neg (by simp [hc])]

/-- A character outside of a class parts the runs before it from those after it. -/
theorem runs_append_cons {p : Char → Bool} {c : Char} (hc : p c = false) (a b : List Char) :
    runs p (a ++ c :: b) = runs p a ++ runs p b := by
  induction a with
  | nil => rw [List.nil_append, runs_cons_of_neg hc, runs, List.nil_append]
  | cons d a ih =>
    cases hd : p d with
    | false => rw [List.cons_append, runs_cons_of_neg hd, runs_cons_of_neg hd, ih]
    | true =>
      rw [List.cons_append, runs, runs, if_pos hd, if_pos hd, ih]
      cases a with
      | nil => simp [hc, runs]
      | cons e a =>
        rw [List.cons_append, List.head?_cons, List.head?_cons]
        cases he : p e with
        | false => simp [he]
        | true =>
          -- the first run of the rest begins right behind the character, so it is the one that grows
          obtain ⟨r, rs, hruns⟩ : ∃ r rs, runs p (e :: a) = r :: rs := by
            rw [runs, if_pos he]
            split
            · cases runs p a <;> exact ⟨_, _, rfl⟩
            · exact ⟨_, _, rfl⟩
          simp [he, hruns, extendRun]

theorem words_append_space (a b : List Char) : words (a ++ ' ' :: b) = words a ++ words b :=
  runs_append_cons (by decide) a b

end Text

namespace Keywords

open Solwright.Text

theorem keywordsOf_append_space (a b : List Char) :
    keywordsOf (a ++ ' ' :: b) = keywordsOf a ++ keywordsOf b := by
  have hlower : lower (a ++ ' ' :: b) = lower a ++ ' ' :: lower b := by
    rw [lower, List.flatMap_append, List.flatMap_cons]
    rfl
  rw [keywordsOf, hlower, runs_append_cons (by decide)]
  rfl

theorem name?_append_space (a b : List Char) : name? (a ++ ' ' :: b) = (name? a).or (name? b) := by
  rw [name?, words_append_space, List.findSome?_append]
  rfl

/-- One of the words of a text begins with one of some keywords. -/
def Mentions (s : List Char) (keywords : List String) : Prop :=
  ∃ w ∈ keywordsOf s, ∃ k ∈ keywords, k.toList <+: w

theorem hits_iff {s : List Char} {keywords : List String} :
    hits (keywordsOf s) keywords = true ↔ Mentions s keywords := by
  simp only [hits, Mentions, List.any_eq_true, List.isPrefixOf_iff_prefix]

theorem hits_append (ws vs : List (List Char)) (keywords : List String) :
    hits (ws ++ vs) keywords = (hits ws keywords || hits vs keywords) :=
  List.any_append

/-- The families that are suggested, in the order of their rules. -/
def familyOrder : List Family := [.nonFungible, .governance, .multiToken, .fungible]

/-- The place of a family in the order of the rules. -/
def rank (f : Family) : Nat := familyOrder.idxOf f

theorem rank_familyRule (ws : List (List Char)) :
    rank (familyRule ws).family = familyRules.findIdx fun r => hits ws r.keywords := by
  unfold familyRule familyRules
  simp only [List.find?_cons, List.find?_nil, List.findIdx_cons, List.findIdx_nil]
  -- one case for each rule that may be the first to hit, and one for none of them
  repeat' split
  all_goals simp_all [rank, familyOrder, generalRule]

/-- The first place at which one of two tests succeeds. -/
theorem findIdx_or {α : Type} (p q : α → Bool) (xs : List α) :
    (xs.findIdx fun x => p x || q x) = min (xs.findIdx p) (xs.findIdx q) := by
  induction xs with
  | nil => rfl
  | cons x xs ih =>
    rw [List.findIdx_cons, List.findIdx_cons, List.findIdx_cons, ih]
    cases p x <;> cases q x <;> simp

/-- Of the families of two texts, the one that comes first is the family of both together. -/
theorem rank_append_space (p q : String) : rank (suggest (p ++ " " ++ q)).family =
    min (rank (suggest p).family) (rank (suggest q).family) := by
  have htext : (p ++ " " ++ q).toList = p.toList ++ ' ' :: q.toList := by simp
  simp only [suggest, rank_familyRule, htext, keywordsOf_append_space, hits_append, findIdx_or]

theorem family_mem (s : String) : (suggest s).family ∈ familyOrder := by
  have hrank : rank (suggest s).family ≤ familyRules.length := by
    rw [suggest, rank_familyRule]
    exact List.findIdx_le_length
  exact List.idxOf_lt_length_iff.1 (Nat.lt_succ_of_le hrank)

/-- A name in a text is the name that is suggested. -/
theorem contractName_of_name? {s : String} {n : ContractName} (h : name? s.toList = some n) :
    (suggest s).contractName = n := by
  simp [suggest, h]

/-- What rules add to some features: the features of those that match, unless they are there. -/
def added (ws : List (List Char)) (base : List RawText) (rs : List FeatureRule) : List RawText :=
  (rs.filter fun r => hits ws r.keywords && !base.contains r.feature).map FeatureRule.feature

theorem added_append (ws : List (List Char)) (base : List RawText) (rs rs' : List FeatureRule) :
    added ws base (rs ++ rs') = added ws base rs ++ added ws base rs' := by
  rw [added, List.filter_append, List.map_append]
  rfl

theorem added_singleton {ws : List (List Char)} {base : List RawText} {r : FeatureRule}
    (h : (hits ws r.keywords && !base.contains r.feature) = true) : added ws base [r] = [r.feature] := by
  rw [added, List.filter_singleton, h]
  rfl

theorem added_of_not {ws : List (List Char)} {base : List RawText} {r : FeatureRule}
    (h : (hits ws r.keywords && !base.contains r.feature) = false) : added ws base [r] = [] := by
  rw [added, List.filter_singleton, h]
  rfl

theorem added_sublist (ws : List (List Char)) (base : List RawText) (rs : List FeatureRule) :
    (added ws base rs).Sublist (rs.map FeatureRule.feature) :=
  List.filter_sublist.map FeatureRule.feature

theorem foldl_addFeature {ws : List (List Char)} {base : List RawText} {rs : List FeatureRule}
    (h : (rs.map FeatureRule.feature).Nodup) : rs.foldl (addFeature ws) base = base ++ added ws base rs := by
  induction rs using List.reverseRecOn with
  | nil => simp [added]
  | append_singleton rs r ih =>
    rw [List.map_append, List.nodup_append] at h
    obtain ⟨hrs, -, hne⟩ := h
    have hr : r.feature ∉ added ws base rs := fun hmem =>
      hne _ ((added_sublist ws base rs).subset hmem) _ List.mem_cons_self rfl
    have hcontains : (base ++ added ws base rs).contains r.feature = base.contains r.feature := by simp [hr]
    rw [List.foldl_append, ih hrs, List.foldl_cons, List.foldl_nil, addFeature, hcontains, added_append,
      ← List.append_assoc]
    cases hnew : hits ws r.keywords && !base.contains r.feature with
    | true => rw [if_pos rfl, added_singleton hnew]
    | false => rw [if_neg Bool.false_ne_true, added_of_not hnew, List.append_nil]

theorem nodup_featureRules : (featureRules.map FeatureRule.feature).Nodup := by decide

theorem nodup_defaults (f : Family) : (defaults f).features.Nodup := by cases f <;> decide

/-- The features of a text: the defaults of its family, and behind them what the rules add. -/
theorem features_suggest (s : String) : (suggest s).features = (defaults (suggest s).family).features ++
    added (keywordsOf s.toList) (defaults (suggest s).family).features featureRules :=
  foldl_addFeature nodup_featureRules

theorem nodup_features (s : String) : (suggest s).features.Nodup := by
  rw [features_suggest, List.nodup_append]
  refine ⟨nodup_defaults _, (added_sublist _ _ _).nodup nodup_featureRules, ?_⟩
  rintro f hf g hg rfl
  obtain ⟨r, hr, rfl⟩ := List.mem_map.1 hg
  simp [hf] at hr

theorem mem_features_of_mentions {s : String} {r : FeatureRule} (hr : r ∈ featureRules)
    (h : Mentions s.toList r.keywords) : r.feature ∈ (suggest s).features := by
  rw [features_suggest, List.mem_append]
  by_cases hf : r.feature ∈ (defaults (suggest s).family).features
  · exact .inl hf
  · exact .inr (List.mem_map.2 ⟨r, by simp [hr, hf, hits_iff.2 h], rfl⟩)

theorem Mentions.append_space {a : List Char} {keywords : List String} (h : Mentions a keywords) (b : List Char) :
    Mentions (a ++ ' ' :: b) keywords := by
  rw [← hits_iff, keywordsOf_append_space, hits_append, hits_iff.2 h, Bool.true_or]

/-- Features without repetition: the defaults of the family, and behind them others in the order of the rules. -/
def InOrder (g : Suggestion) : Prop :=
  g.features.Nodup ∧ ∃ more, g.features = (defaults g.family).features ++ more ∧
    more.Sublist (featureRules.map FeatureRule.feature)

theorem inOrder_suggest (s : String) : InOrder (suggest s) :=
  ⟨nodup_features s, _, features_suggest s, added_sublist _ _ _⟩

/-- Words behind a text refine its reading: the family comes no later in the order of the rules, each feature that
the text mentions is listed with and without them, and the name is the one in the text, or else the one in the
words. The features are in order for every text. -/
theorem suggest_refined (p q : String) :
    rank (suggest (p ++ " " ++ q)).family ≤ rank (suggest p).family ∧
    (suggest p).family ∈ familyOrder ∧ (suggest (p ++ " " ++ q)).family ∈ familyOrder ∧
    (∀ r ∈ featureRules, Mentions p.toList r.keywords →
      r.feature ∈ (suggest p).features ∧ r.feature ∈ (suggest (p ++ " " ++ q)).features) ∧
    (∀ n, name? p.toList = some n →
      (suggest p).contractName = n ∧ (suggest (p ++ " " ++ q)).contractName = n) ∧
    (name? p.toList = none → name? (p ++ " " ++ q).toList = name? q.toList ∧
      ∀ n, name? q.toList = some n → (suggest (p ++ " " ++ q)).contractName = n) ∧
    InOrder (suggest p) ∧ InOrder (suggest (p ++ " " ++ q)) := by
  have htext : (p ++ " " ++ q).toList = p.toList ++ ' ' :: q.toList := by simp
  have hname : name? (p ++ " " ++ q).toList = (name? p.toList).or (name? q.toList) := by
    rw [htext, name?_append_space]
  refine ⟨?_, family_mem p, family_mem _, fun r hr h => ⟨?_, ?_⟩, fun n hn => ⟨?_, ?_⟩,
    fun hn => ⟨?_, ?_⟩, inOrder_suggest p, inOrder_suggest _⟩
  · rw [rank_append_space]
    exact Nat.min_le_left _ _
  · exact mem_features_of_mentions hr h
  · exact mem_features_of_mentions hr (htext ▸ h.append_space q.toList)
  · exact contractName_of_name? hn
  · exact contractName_of_name? (by rw [hname, hn, Option.some_or])
  · rw [hname, hn, Option.none_or]
  · exact fun n hq => contractName_of_name? (by rw [hname, hn, Option.none_or, hq])

/-- The added word brings another family, whose defaults leave out a feature that the text asks for. -/
theorem suggest_refined_art :
    let p := "mint Widget"
    let widget : ContractName := ⟨"Widget", by decide⟩
    (suggest p).family = .fungible ∧ (suggest (p ++ " " ++ "art")).family = .nonFungible ∧
    .formed "mintable" ∉ (defaults .nonFungible).features ∧ Mentions p.toList ["mint", "create"] ∧
    .formed "mintable" ∈ (suggest (p ++ " " ++ "art")).features ∧ name? p.toList = some widget ∧
    (suggest (p ++ " " ++ "art")).contractName = widget := by
  intro p widget
  obtain ⟨-, -, -, hfeatures, hname, -⟩ := suggest_refined p "art"
  have hmint : Mentions p.toList ["mint", "create"] := hits_iff.1 (by decide)
  have hwidget : name? p.toList = some widget := by decide
  exact ⟨by decide, by decide, by decide, hmint,
    (hfeatures ⟨["mint", "create"], "mintable"⟩ List.mem_cons_self hmint).2, hwidget, (hname widget hwidget).2⟩

end Keywords

end Solwright
