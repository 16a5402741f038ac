import Mathlib.Data.List.Chain
import Solwright.Proofs.Written.Fenced

/-! Plain blocks in a reply. Only the first one is looked at. Where it does not look like Solidity, the
code is what the unfenced rules give for the whole reply, prose and later blocks included, so a later
block that does look like it is found only if it is the licensed source of the reply. -/

namespace Solwright.Mining

open Solwright.Text WrittenContract

/-- A plain block, with the prose behind it. The opening fence has white space at most behind it on its
line, and so has the closing one; neither text has a backtick. -/
structure Block where
  blanks : List Char
  text : List Char
  after : List Char
  blank : ∀ c ∈ blanks, isLineBlank c = true
  plain : '`' ∉ text
  prose : '`' ∉ after
  alone : ∀ c ∈ after.head?, isBlank c = true

namespace Block

/-- A block as it stands in a reply. -/
def written (b : Block) : List Char :=
  fence ++ (b.blanks ++ '\n' :: (b.text ++ (fence ++ b.after)))

/-- A block whose trimmed text looks like Solidity. -/
def seemsSolidity (b : Block) : Bool :=
  looksLikeSolidity (trim b.text)

end Block

/-- Prose and blocks. -/
def reply (prose : List Char) (blocks : List Block) : List Char :=
  prose ++ blocks.flatMap Block.written

/-- The source of a text without a fence: from the first licence words to the last closing brace. -/
def IsLicensed (s source : List Char) : Prop :=
  ∃ u v, s = u ++ (source ++ v) ∧ ¬licenceWords <:+: u ∧ licenceWords <+: source ∧
    source.getLast? = some '}' ∧ '}' ∉ v

/-- Behind a backtick stands another one or white space. -/
def Closed (c d : Char) : Prop :=
  c = '`' → d = '`' ∨ isBlank d = true

theorem isChain_append_of_notMem {a s : List Char} (ha : '`' ∉ a) (hs : s.IsChain Closed) :
    (a ++ s).IsChain Closed := by
  have hchain : a.IsChain Closed := by
    apply List.Pairwise.isChain
    apply List.pairwise_of_forall_mem_list
    rintro c hc d - rfl
    exact absurd hc ha
  apply hchain.append hs
  rintro c hc d - rfl
  exact absurd (List.mem_of_getLast? hc) ha

theorem isChain_fence_append {s : List Char} (hs : s.IsChain Closed)
    (hhead : ∀ c ∈ s.head?, c = '`' ∨ isBlank c = true) : (fence ++ s).IsChain Closed := by
  have hfence : fence.IsChain Closed := by simp [fence_eq, Closed]
  exact hfence.append hs fun _ _ d hd _ => hhead d hd

theorem isBlank_of_isLineBlank {c : Char} (h : isLineBlank c = true) : isBlank c = true := by
  simp only [isLineBlank, Bool.and_eq_true] at h
  exact h.1

theorem head?_append_cases {a s : List Char} {c : Char} (h : c ∈ (a ++ s).head?) :
    c ∈ a.head? ∨ c ∈ s.head? := by
  cases a with
  | nil => exact .inr h
  | cons d a => exact .inl h

theorem Block.isChain_append (b : Block) {s : List Char} (hs : s.IsChain Closed)
    (hhead : ∀ c ∈ s.head?, c = '`') : (b.written ++ s).IsChain Closed := by
  have hafter : (fence ++ (b.after ++ s)).IsChain Closed := by
    apply isChain_fence_append (isChain_append_of_notMem b.prose hs)
    intro c hc
    exact (head?_append_cases hc).elim (fun h => .inr (b.alone c h)) (fun h => .inl (hhead c h))
  have hline : ('\n' :: (b.text ++ (fence ++ (b.after ++ s)))).IsChain Closed :=
    isChain_append_of_notMem (a := ['\n']) (by decide) (isChain_append_of_notMem b.plain hafter)
  have hblanks : '`' ∉ b.blanks := fun h => absurd (b.blank _ h) (by decide)
  have hwritten : b.written ++ s =
      fence ++ (b.blanks ++ '\n' :: (b.text ++ (fence ++ (b.after ++ s)))) := by
    simp [Block.written]
  rw [hwritten]
  apply isChain_fence_append (isChain_append_of_notMem hblanks hline)
  intro c hc
  rcases head?_append_cases hc with h | h
  · exact .inr (isBlank_of_isLineBlank (b.blank c (List.mem_of_mem_head? h)))
  · obtain rfl : '\n' = c := by simpa using h
    exact .inr (by decide)

theorem isChain_blocks (blocks : List Block) : (blocks.flatMap Block.written).IsChain Closed ∧
    ∀ c ∈ (blocks.flatMap Block.written).head?, c = '`' := by
  induction blocks with
  | nil => exact ⟨.nil, nofun⟩
  | cons b bs ih =>
    refine ⟨b.isChain_append ih.1 ih.2, fun c hc => ?_⟩
    have hfirst : ((b :: bs).flatMap Block.written).head? = some '`' := by
      simp [Block.written, fence_eq]
    rw [hfirst] at hc
    exact (Option.some.inj hc).symm

/-- White space has no other case. -/
theorem foldChar_of_isBlank {c : Char} (h : isBlank c = true) : foldChar c = c := by
  have hn : (c.toNat < 65 ∨ 90 < c.toNat) ∧ c.toNat ≠ 0x17F ∧ c.toNat ≠ 0x212A ∧ c.toNat ≠ 0x130 ∧
      c.toNat ≠ 0x131 := by
    simp only [isBlank, Bool.or_eq_true, Bool.and_eq_true, decide_eq_true_eq, beq_iff_eq] at h
    omega
  obtain ⟨hcapital, hs, hk, hi, hdotless⟩ := hn
  have hlower : c.toLower = c := by
    unfold Char.toLower
    split
    next hle =>
      have h1 : 65 ≤ c.toNat := UInt32.le_iff_toNat_le.1 hle.1
      have h2 : c.toNat ≤ 90 := UInt32.le_iff_toNat_le.1 hle.2
      omega
    next => rfl
  simp [foldChar, hs, hk, hi, hdotless, hlower]

/-- Where no word stands behind a fence, no block of Solidity is found. -/
theorem firstMatch_solidityBlock?_of_isChain {s : List Char} (h : s.IsChain Closed) :
    firstMatch solidityBlock? none s = none := by
  rw [firstMatch_eq_none_iff]
  rintro u v rfl
  rw [Option.eq_none_iff_forall_ne_some]
  intro block hblock
  obtain ⟨l, rest, rfl, hl⟩ := exists_of_solidityBlock? hblock
  obtain ⟨c, l, rfl, hc, -⟩ := List.map_eq_cons_iff.1 hl
  have hclosed : Closed '`' c := by
    have hchain := h.right_of_append
    rw [fence_eq] at hchain
    simp only [List.cons_append, List.nil_append, List.isChain_cons_cons] at hchain
    exact hchain.2.2.1
  rcases hclosed rfl with rfl | hblank
  · cases hc
  · rw [foldChar_of_isBlank hblank] at hc
    subst hc
    cases hblank

/-- The first plain block is found behind any prose. -/
theorem firstMatch_reply {prose : List Char} (hprose : '`' ∉ prose) (b : Block) (bs : List Block) :
    firstMatch plainBlock? none (reply prose (b :: bs)) = some b.text := by
  have hsplit : reply prose (b :: bs) = prose ++ (fence ++ (b.blanks ++ '\n' ::
      (b.text ++ (fence ++ (b.after ++ bs.flatMap Block.written))))) := by
    simp [reply, Block.written]
  rw [hsplit, firstMatch_append]
  · apply firstMatch_of_some
    rw [plainBlock?, after?_append, Option.bind_some, List.dropWhile_append_of_pos b.blank,
      List.dropWhile_cons_of_neg (by decide)]
    refine upToFence?_append (fun v hv hne hfence => ?_) (List.prefix_append fence _)
    obtain ⟨c, v, rfl⟩ := List.exists_cons_of_ne_nil hne
    rw [List.cons_append, fence_eq, List.cons_prefix_cons] at hfence
    exact b.plain (hv.subset (hfence.1 ▸ List.mem_cons_self))
  · rintro u v rfl hne
    obtain ⟨c, v, rfl⟩ := List.exists_cons_of_ne_nil hne
    have hc : '`' ≠ c := by
      rintro rfl
      exact hprose (by simp)
    rw [plainBlock?, fence_eq, List.cons_append, after?_of_ne hc]
    rfl

theorem licenceWords_head : licenceWords.head? = some '/' := by decide

theorem borderless_licenceWords : Borderless licenceWords := by decide

theorem licensed?_eq_some_iff {before : Option Char} {s source : List Char} :
    licensed? before s = some source ↔ ∃ v, s = source ++ v ∧ licenceWords <+: source ∧
      source.getLast? = some '}' ∧ '}' ∉ v := by
  rw [licensed?, Option.ite_none_right_eq_some, List.isPrefixOf_iff_prefix, upToLast?_eq_some_iff]
  constructor
  · rintro ⟨hwords, u, v, rfl, rfl, hv⟩
    refine ⟨v, rfl, ?_, by simp, hv⟩
    rcases List.prefix_or_prefix_of_prefix hwords (List.prefix_append (u ++ ['}']) v) with h | h
    · exact h
    · have hbrace : '}' ∈ licenceWords := h.subset (by simp)
      exact absurd hbrace (by decide)
  · rintro ⟨v, rfl, hwords, hlast, hv⟩
    obtain ⟨u, rfl⟩ := List.getLast?_eq_some_iff.1 hlast
    exact ⟨hwords.trans (List.prefix_append _ v), u, v, rfl, rfl, hv⟩

/-- The licensed source of a text is what the search for licence words finds. -/
theorem firstMatch_licensed?_eq_some_iff {s source : List Char} :
    firstMatch licensed? none s = some source ↔ IsLicensed s source := by
  rw [firstMatch_eq_some_iff]
  constructor
  · rintro ⟨u, t, rfl, hfound, hnone⟩
    obtain ⟨v, rfl, hwords, hlast, hv⟩ := licensed?_eq_some_iff.1 hfound
    refine ⟨u, v, rfl, ?_, hwords, hlast, hv⟩
    rintro ⟨x, y, rfl⟩
    -- licence words further to the front are followed by the same last brace
    obtain ⟨w, rfl⟩ := List.getLast?_eq_some_iff.1 hlast
    have hne : licenceWords ++ y ≠ [] := by
      rw [Ne, List.append_eq_nil_iff]
      rintro ⟨hnil, -⟩
      cases hnil ▸ licenceWords_head
    have hearlier := hnone x (licenceWords ++ y) (by simp) hne
    have hsome : licensed? (x.getLast?.or none) (licenceWords ++ y ++ (w ++ ['}'] ++ v)) =
        some (licenceWords ++ y ++ (w ++ ['}'])) :=
      licensed?_eq_some_iff.2 ⟨v, by simp, by simp, by simp, hv⟩
    rw [hsome] at hearlier
    cases hearlier
  · rintro ⟨u, v, rfl, hfirst, hwords, hlast, hv⟩
    refine ⟨u, source ++ v, rfl, licensed?_eq_some_iff.2 ⟨v, rfl, hwords, hlast, hv⟩, ?_⟩
    rintro x y rfl hne
    obtain ⟨r, rfl⟩ := hwords
    have hnot := borderless_licenceWords.not_isPrefix (s := r ++ v) hfirst hne
    rw [licensed?, if_neg]
    rwa [List.isPrefixOf_iff_prefix, List.append_assoc]

/-- Licensed source has nothing to trim. -/
theorem IsLicensed.trim_eq {s source : List Char} (h : IsLicensed s source) : trim source = source := by
  obtain ⟨u, v, -, -, ⟨r, rfl⟩, hlast, -⟩ := h
  apply trim_of_visible_ends
  · rw [List.head?_append, licenceWords_head, Option.some_or]
    decide
  · rw [hlast]
    decide

/-- The code of a text without blocks of Solidity whose first plain block is something else. -/
theorem code?_unfenced {s block : List Char} (hsolidity : firstMatch solidityBlock? none s = none)
    (hplain : firstMatch plainBlock? none s = some block) (hlooks : looksLikeSolidity (trim block) = false) :
    (∀ source, IsLicensed s source → code? s = some source) ∧
    ((∀ source, ¬IsLicensed s source) →
      code? s = if contains Source.pragmaWords s then some (trim s) else none) := by
  have hfilter : (some block).filter (fun b => looksLikeSolidity (trim b)) = none := by
    simp [Option.filter, hlooks]
  constructor
  · intro source hsource
    simp only [code?, hsolidity, hplain, hfilter, firstMatch_licensed?_eq_some_iff.2 hsource, hsource.trim_eq]
  · intro hnone
    have hlicensed : firstMatch licensed? none s = none := by
      rw [Option.eq_none_iff_forall_ne_some]
      exact fun source hsource => hnone source (firstMatch_licensed?_eq_some_iff.1 hsource)
    simp only [code?, hsolidity, hplain, hfilter, hlicensed]

/-- Of the blocks of a reply of which one looks like Solidity, the first such one is the code of the reply
exactly if it is the first block of all or the licensed source of the reply. In any other case the code is
the licensed source, prose and fences included, or with a pragma line the whole reply, or there is none. -/
theorem code?_reply {prose : List Char} (hprose : '`' ∉ prose) {blocks : List Block} {chosen : Block}
    (hchosen : blocks.find? Block.seemsSolidity = some chosen) :
    let s := reply prose blocks
    (code? s = some (trim chosen.text) ↔
      blocks.head? = some chosen ∨ IsLicensed s (trim chosen.text)) ∧
    (blocks.head? ≠ some chosen → (∀ source, IsLicensed s source → code? s = some source) ∧
      ((∀ source, ¬IsLicensed s source) →
        code? s = if contains Source.pragmaWords s then some (trim s) else none)) := by
  intro s
  cases blocks with
  | nil => cases hchosen
  | cons b bs =>
    have hsolidity : firstMatch solidityBlock? none s = none :=
      firstMatch_solidityBlock?_of_isChain (isChain_append_of_notMem hprose (isChain_blocks _).1)
    have hplain : firstMatch plainBlock? none s = some b.text := firstMatch_reply hprose b bs
    cases hlooks : b.seemsSolidity with
    | true =>
      rw [List.find?_cons_of_pos hlooks] at hchosen
      obtain rfl := Option.some.inj hchosen
      have hfilter : (some b.text).filter (fun t => looksLikeSolidity (trim t)) = some b.text :=
        if_pos hlooks
      have hcode : code? s = some (trim b.text) := by
        simp only [code?, hsolidity, hplain, hfilter]
      exact ⟨⟨fun _ => .inl rfl, fun _ => hcode⟩, fun h => absurd rfl h⟩
    | false =>
      have hne : (b :: bs).head? ≠ some chosen := by
        intro hhead
        have hright := List.find?_some hchosen
        rw [← Option.some.inj hhead, hlooks] at hright
        cases hright
      obtain ⟨hlicensed, hnone⟩ := code?_unfenced hsolidity hplain hlooks
      refine ⟨⟨fun hcode => .inr ?_, fun h => ?_⟩, fun _ => ⟨hlicensed, hnone⟩⟩
      · by_contra hnot
        have hall : ∀ source, ¬IsLicensed s source := by
          intro source hsource
          rw [hlicensed source hsource] at hcode
          exact hnot (Option.some.inj hcode ▸ hsource)
        rw [hnone hall, Option.ite_none_right_eq_some] at hcode
        -- the whole reply has backticks, and no text of a block has
        have htick : '`' ∈ trim s := mem_trim (by simp [s, reply, Block.written, fence_eq]) (by decide)
        rw [Option.some.inj hcode.2] at htick
        exact chosen.plain ((trim_sublist _).subset htick)
      · exact h.elim (fun hhead => absurd hhead hne) (hlicensed _)

/-- A contract behind a block of something else is not found. -/
theorem code?_reply_second :
    let install : Block := ⟨[], "npm install\n".toList, "\nThen:\n".toList, by simp, by simp, by simp,
      by simp [isBlank]⟩
    let contract : Block := ⟨[], "contract A \x7b\x7d\n".toList, ['\n'], by simp, by simp, by simp,
      by simp [isBlank]⟩
    [install, contract].find? Block.seemsSolidity = some contract ∧ code? (reply [] [install, contract]) = none := by
  intro install contract
  have hchosen : [install, contract].find? Block.seemsSolidity = some contract := by
    rw [List.find?_cons_of_neg, List.find?_cons_of_pos] <;> decide
  have hprose : '`' ∉ ([] : List Char) := List.not_mem_nil
  obtain ⟨-, hcode⟩ := code?_reply hprose hchosen
  have hne : [install, contract].head? ≠ some contract := by
    intro h
    cases congrArg (fun b : Option Block => b.map fun b => b.text.length) h
  have hunlicensed : ∀ source, ¬IsLicensed (reply [] [install, contract]) source := by
    rintro source ⟨u, v, hs, -, ⟨r, rfl⟩, -, -⟩
    have hstands : licenceWords <:+: reply [] [install, contract] := ⟨u, r ++ v, by rw [hs]; simp⟩
    exact absurd hstands (by decide)
  refine ⟨hchosen, ?_⟩
  rw [(hcode hne).2 hunlicensed]
  decide

end Solwright.Mining
