import Solwright.Proofs.Text.Search
import Solwright.Proofs.Written.Ending

/-! A fenced block of Solidity in a reply. Whatever prose stands around it, the code of the first such
block is the code that the reply holds, and a reply that is not read as an object is read as that code. -/

namespace Solwright.Mining

open Solwright.Text

/-- The name of the language behind a fence. -/
def language : List Char := "solidity".toList

/-- A fence and the language, as they are looked for without regard to case. -/
def opening : List Char := fence ++ language

theorem borderless_opening : Borderless opening := by decide

/-- A text with a block of Solidity: prose, the fence with the language and the rest of its line, the
code, the closing fence on a line of its own, and prose. -/
def withBlock (prose word rest code after : List Char) : List Char :=
  prose ++ (fence ++ (word ++ (rest ++ '\n' :: (code ++ '\n' :: (fence ++ after)))))

theorem map_foldChar_fence : fence.map foldChar = fence := by decide

/-- A block begins with a fence and the language. -/
theorem exists_of_solidityBlock? {before : Option Char} {s block : List Char}
    (h : solidityBlock? before s = some block) :
    ∃ w rest, s = fence ++ (w ++ rest) ∧ w.map foldChar = language := by
  obtain ⟨t, ht, -⟩ := Option.bind_eq_some_iff.1 h
  obtain ⟨u, hu, hword⟩ := Option.bind_eq_some_iff.1 ht
  obtain ⟨w, rfl, hw⟩ := afterFolded?_eq_some_iff.1 hword
  exact ⟨w, t, after?_eq_some.1 hu, hw⟩

theorem opening_of_solidityBlock? {before : Option Char} {s block : List Char}
    (h : solidityBlock? before s = some block) : opening <+: s.map foldChar := by
  obtain ⟨w, rest, rfl, hw⟩ := exists_of_solidityBlock? h
  rw [List.map_append, map_foldChar_fence, List.map_append, hw, ← List.append_assoc]
  exact List.prefix_append opening _

/-- The text up to the next fence is all the text in which none begins. -/
theorem upToFence?_append {a s : List Char} (ha : ∀ v, v <:+ a → v ≠ [] → ¬fence <+: v ++ s)
    (hs : fence <+: s) : upToFence? (a ++ s) = some a := by
  induction a with
  | nil =>
    obtain ⟨t, rfl⟩ := hs
    rfl
  | cons c a ih =>
    have hc : fence.isPrefixOf (c :: (a ++ s)) = false := by
      rw [Bool.eq_false_iff, Ne, List.isPrefixOf_iff_prefix]
      exact ha (c :: a) List.suffix_rfl nofun
    rw [List.cons_append, upToFence?, hc, if_neg Bool.false_ne_true,
      ih fun v hv => ha v (hv.trans (List.suffix_cons c a))]
    rfl

/-- No fence reaches over the end of a line. -/
theorem fence_isPrefix_of_line {v s : List Char} (h : fence <+: v ++ '\n' :: s) : fence <+: v := by
  obtain ⟨rest, hrest⟩ := h
  have hafter := after?_append_of_notMem (w := fence) (s := '\n' :: s) (by simp [fence_eq]) v
  rw [after?_eq_some.2 hrest.symm] at hafter
  obtain ⟨r, hr, -⟩ := Option.map_eq_some_iff.1 hafter.symm
  exact ⟨r, (after?_eq_some.1 hr).symm⟩

/-- Code without a fence ends at the fence on the next line. -/
theorem upToFence?_line {code after : List Char} (h : ¬fence <:+: code) :
    upToFence? (code ++ '\n' :: (fence ++ after)) = some (code ++ ['\n']) := by
  have hsplit : code ++ '\n' :: (fence ++ after) = (code ++ ['\n']) ++ (fence ++ after) := by simp
  rw [hsplit]
  refine upToFence?_append (fun v hv hne hfence => ?_) (List.prefix_append fence after)
  rcases List.suffix_concat_iff.1 hv with rfl | ⟨u, rfl, hu⟩
  · exact hne rfl
  · rw [List.append_assoc] at hfence
    exact h ((fence_isPrefix_of_line hfence).isInfix.trans hu.isInfix)

variable {prose word rest code after : List Char}

theorem solidityBlock?_of_opening (hword : word.map foldChar = language) (hrest : '\n' ∉ rest)
    (hcode : ¬fence <:+: code) (before : Option Char) :
    solidityBlock? before (fence ++ (word ++ (rest ++ '\n' :: (code ++ '\n' :: (fence ++ after))))) =
      some (code ++ ['\n']) := by
  have hline : (rest ++ '\n' :: (code ++ '\n' :: (fence ++ after))).dropWhile (· != '\n') =
      '\n' :: (code ++ '\n' :: (fence ++ after)) := by
    rw [List.dropWhile_append_of_pos, List.dropWhile_cons_of_neg (by decide)]
    intro c hc
    rw [bne_iff_ne]
    rintro rfl
    exact hrest hc
  have hlanguage : ∀ s, afterFolded? "solidity".toList (word ++ s) = some s :=
    fun s => afterFolded?_eq_some_iff.2 ⟨word, rfl, hword⟩
  rw [solidityBlock?, after?_append, Option.bind_some, hlanguage, Option.bind_some, hline]
  exact upToFence?_line hcode

/-- The first block is the one whose opening stands in the text first. -/
theorem firstMatch_withBlock (hprose : ¬opening <:+: prose.map foldChar)
    (hword : word.map foldChar = language) (hrest : '\n' ∉ rest) (hcode : ¬fence <:+: code) :
    firstMatch solidityBlock? none (withBlock prose word rest code after) = some (code ++ ['\n']) := by
  rw [withBlock, firstMatch_append]
  · exact firstMatch_of_some (solidityBlock?_of_opening hword hrest hcode _)
  · intro u v hprose' hne
    rw [Option.eq_none_iff_forall_ne_some]
    intro block hblock
    have hopening := opening_of_solidityBlock? hblock
    have hfolded : (fence ++ (word ++ (rest ++ '\n' :: (code ++ '\n' :: (fence ++ after))))).map foldChar =
        opening ++ (rest ++ '\n' :: (code ++ '\n' :: (fence ++ after))).map foldChar := by
      rw [List.map_append, List.map_append, map_foldChar_fence, hword, opening, List.append_assoc]
    rw [List.map_append, hfolded] at hopening
    rw [hprose', List.map_append] at hprose
    exact borderless_opening.not_isPrefix hprose (by simpa using hne) hopening

/-- The code of the first block is the code that a text holds. -/
theorem code?_withBlock (hprose : ¬opening <:+: prose.map foldChar)
    (hword : word.map foldChar = language) (hrest : '\n' ∉ rest) (hcode : ¬fence <:+: code) :
    code? (withBlock prose word rest code after) = some (trim code) := by
  have hblank : IsBlank ['\n'] := by simp [IsBlank, isBlank]
  simp only [code?, firstMatch_withBlock hprose hword hrest hcode, trim_append_of_isBlank code hblank]

end Solwright.Mining

namespace Solwright.WrittenContract

open Solwright.Text Solwright.Json Mining

/-- A reply with code and no object is read as that code, under the name that it gives. -/
theorem ofReply_of_code {s code : List Char} (hs : ∃ c ∈ s, isBlank c = false)
    (hobject : ∀ t ∈ candidates s, ¬HoldsCode (Json.read limit) t)
    (hlimit : ¬ReachesLimit (Json.read limit) (candidates s)) (hcode : code? s = some code) (hne : code ≠ []) :
    ∃ c, ofReply limit (some (String.ofList s)) = .ok c ∧ c.code = String.ofList code ∧
      c.name = (name? (String.ofList s) c.code).map .formed := by
  have hnone : firstObject? (Json.read limit) (candidates s) = .ok none := by
    rcases firstObject?_of_not_reachesLimit hlimit with ⟨ms, -, t, ht, hholds⟩ | ⟨hnone, -⟩
    · exact absurd hholds (hobject t ht)
    · exact hnone
  have hfull : (String.ofList code).isEmpty = false := by simpa using hne
  rw [ofReply_of_visible hs, hnone]
  simp only [mine, String.toList_ofList, hcode, Option.getD_some, hfull, Bool.false_eq_true, if_false]
  exact ⟨_, rfl, rfl, rfl⟩

/-- A block of Solidity is the code of a text, whatever prose stands around it, as long as no such block
begins in the prose before it. A reply that holds no object with code is read as that code, named after
the first contract that the code declares, exactly where no text that may be its object comes to a
limit of reading. -/
theorem ofReply_withBlock {prose word rest code : List Char} (after : List Char)
    (hprose : ¬opening <:+: prose.map foldChar) (hword : word.map foldChar = language)
    (hrest : '\n' ∉ rest) (hfence : ¬fence <:+: code) (hblank : ¬IsBlank code) :
    let s := withBlock prose word rest code after
    code? s = some (trim code) ∧
    ((∀ t ∈ candidates s, ¬HoldsCode (Json.read limit) t) →
      ((∃ c, ofReply limit (some (String.ofList s)) = .ok c ∧ c.code = String.ofList (trim code) ∧
          ∀ name, Source.firstDeclared? c.code = some name → c.name = some (.formed name)) ↔
        ∀ t ∈ candidates s, ¬MeetsLimit (Json.read limit) t)) := by
  intro s
  have hcode : code? s = some (trim code) := code?_withBlock hprose hword hrest hfence
  refine ⟨hcode, fun hobject => ⟨?_, fun hlimit => ?_⟩⟩
  · rintro ⟨c, hc, -⟩ t ht hmeets
    have hlimit : ReachesLimit (Json.read limit) (candidates s) :=
      (reachesLimit_iff_exists hobject).2 ⟨t, ht, hmeets⟩
    have hfault : ∃ f, ofReply limit (some (String.ofList s)) = .error f ∧ f.IsLimit := by
      apply ofReply_of_reachesLimit
      rwa [Option.getD_some, String.toList_ofList]
    obtain ⟨f, hf, -⟩ := hfault
    rw [hf] at hc
    cases hc
  · have hreach : ¬ReachesLimit (Json.read limit) (candidates s) := by
      rw [reachesLimit_iff_exists hobject]
      rintro ⟨t, ht, hmeets⟩
      exact hlimit t ht hmeets
    have hne : trim code ≠ [] := by
      obtain ⟨c, u, htrim, -⟩ := trim_head (b := []) (exists_of_not_isBlank hblank)
      rw [List.append_nil] at htrim
      simp [htrim]
    obtain ⟨d, hd, hvisible⟩ := exists_of_not_isBlank hblank
    have hs : ∃ c ∈ s, isBlank c = false := ⟨d, by simp [s, withBlock, hd], hvisible⟩
    obtain ⟨c, hc, hcc, hname⟩ := ofReply_of_code hs hobject hreach hcode hne
    refine ⟨c, hc, hcc, fun name hdeclared => ?_⟩
    rw [hname, name?, hdeclared]
    rfl

/-- Behind prose with a plain block in it, and in front of prose with braces, the contract is read. -/
theorem ofReply_withBlock_prose :
    let code := "contract A \x7b \x7d".toList
    let s := withBlock "As in ```x```:\n".toList "Solidity".toList [' '] (' ' :: code) "\nPut \x7b1\x7d in.".toList
    code? s = some code ∧ ∃ c, ofReply 1000 (some (String.ofList s)) = .ok c ∧ c.code = String.ofList code ∧
      c.name = some (.formed "A") := by
  intro code s
  have htrim : trim (' ' :: code) = code := by decide
  have hprose : ¬opening <:+: ("As in ```x```:\n".toList).map foldChar := by decide
  have hword : ("Solidity".toList).map foldChar = language := by decide
  have hrest : '\n' ∉ [' '] := by decide
  have hfence : ¬fence <:+: ' ' :: code := by decide
  have hblank : ¬IsBlank (' ' :: code) := fun h => absurd (h 'c' (by decide)) (by decide)
  have hnone : ∀ t ∈ candidates s, ¬HoldsCode (Json.read 1000) t := by decide
  have hlimit : ∀ t ∈ candidates s, ¬MeetsLimit (Json.read 1000) t := by decide
  obtain ⟨hcode, hread⟩ :=
    ofReply_withBlock "\nPut \x7b1\x7d in.".toList hprose hword hrest hfence hblank
  rw [htrim] at hcode hread
  obtain ⟨c, hc, hcc, hname⟩ := (hread hnone).2 hlimit
  refine ⟨hcode, c, hc, hcc, hname "A" ?_⟩
  rw [hcc]
  decide

end Solwright.WrittenContract
